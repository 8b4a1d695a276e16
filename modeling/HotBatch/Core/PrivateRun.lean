import HotBatch.Core.Capacity

/-!
# The private run of a request

What a request generates when it is alone: after its prefill, every turn decodes one row from its own
tensors, samples, appends and takes what may be sent, until the sequence is done. The run is a
function of the model and the request; neither the handle nor anything else that the engines add
has an influence on it. Both engines follow it as far as they get.
-/

namespace HotBatch

namespace Sequence

variable {α : Type}

/-- The same sequence behind another cache handle. -/
def withHandle (handle : KvHandle) (seq : Sequence α) : Sequence α := { seq with kvHandle := handle }

theorem appendToken_withHandle (token : Token) (handle : KvHandle) (seq : Sequence α) :
    (seq.withHandle handle).appendToken token = (seq.appendToken token).withHandle handle := by
  unfold appendToken
  dsimp only
  split_ifs <;> first | rfl | contradiction

theorem advance_withHandle [Floats α] {row : LogitRow α} {seq stepped : Sequence α}
    {tokens : List Token} (handle : KvHandle) (hadvance : seq.advance row = some (tokens, stepped)) :
    (seq.withHandle handle).advance row = some (tokens, stepped.withHandle handle) := by
  have happend : (seq.withHandle handle).appendSampled row =
      (seq.appendSampled row).withHandle handle :=
    appendToken_withHandle (seq.sampler.sample row).1 handle
      { seq with sampler := (seq.sampler.sample row).2 }
  rw [advance_eq_some, happend]
  obtain ⟨hsafe, htokens, rfl⟩ := advance_eq_some.mp hadvance
  exact ⟨hsafe, htokens, rfl⟩

/-- A sequence as an engine keeps it for a request, until it is done. -/
structure Serves (req : GenerationRequest α) (seq : Sequence α) : Prop where
  id_eq : seq.id = req.id
  promptTokens_eq : seq.promptTokens = req.promptTokens
  promptHash_eq : seq.promptHash = req.promptHash
  client_eq : seq.client = req.client
  config_eq : seq.sampler.config = req.samplerConfig
  status : seq.state = .running ∧ seq.finishReason = none ∨
    seq.state = .finished ∧ seq.finishReason.isSome = true
  emitted_le : seq.emittedTokens ≤ seq.safeEnd

namespace Serves

variable {req : GenerationRequest α} {seq stepped : Sequence α}

theorem start (req : GenerationRequest α) (handle : KvHandle) :
    Serves req (Sequence.ofRequest req handle).markRunning where
  id_eq := rfl
  promptTokens_eq := rfl
  promptHash_eq := rfl
  client_eq := rfl
  config_eq := rfl
  status := Or.inl ⟨rfl, rfl⟩
  emitted_le := Nat.zero_le _

theorem finishReason_of_not_done (hserves : Serves req seq) (hdone : seq.isDone = false) :
    seq.finishReason = none := by
  rcases hserves.status with ⟨-, hreason⟩ | ⟨hstate, -⟩
  · exact hreason
  · simp [isDone, hstate] at hdone

variable [Floats α] {row : LogitRow α} {tokens : List Token}

/-- The slice of `take_emittable_tokens` is in range at every turn. -/
theorem exists_advance (hserves : Serves req seq) (row : LogitRow α) :
    ∃ tokens stepped, seq.advance row = some (tokens, stepped) :=
  ⟨_, _, advance_eq_some.mpr
    ⟨hserves.emitted_le.trans (safeEnd_le_appendSampled row seq), rfl, rfl⟩⟩

/-- A turn of an unfinished sequence goes on serving the same request. -/
theorem advance (hserves : Serves req seq) (hdone : seq.isDone = false)
    (hadvance : seq.advance row = some (tokens, stepped)) : Serves req stepped := by
  obtain ⟨hid, hprompt, -, hclient, hhash, hsampler, -⟩ := advance_frame hadvance
  constructor
  case id_eq => exact hid.trans hserves.id_eq
  case promptTokens_eq => exact hprompt.trans hserves.promptTokens_eq
  case promptHash_eq => exact hhash.trans hserves.promptHash_eq
  case client_eq => exact hclient.trans hserves.client_eq
  case config_eq =>
    rw [hsampler, Sampler.sample_config]
    exact hserves.config_eq
  case status =>
    have hreason := hserves.finishReason_of_not_done hdone
    have hstate : seq.state = .running := by
      rcases hserves.status with ⟨hstate, -⟩ | ⟨-, hsome⟩
      · exact hstate
      · simp [hreason] at hsome
    rcases advance_state hadvance hreason with hfinished | ⟨hsame, hnone, -⟩
    · exact Or.inr hfinished
    · exact Or.inl ⟨hsame.trans hstate, hnone⟩
  case emitted_le => exact (advance_emittedTokens hadvance).le

end Serves

end Sequence

/-! ## The run -/

/-- One request alone: its sequence, and what is cached for it. -/
structure PrivateState (α : Type) where
  seq : Sequence α
  store : KvStore α

namespace PrivateState

variable {α : Type} [Kernels α]

/-- After the prefill. -/
def start (model : SmallTransformer α) (req : GenerationRequest α) (handle : KvHandle) :
    PrivateState α where
  seq := (Sequence.ofRequest req handle).markRunning
  store := model.prefillStore req.promptTokens fun _ ↦ none

/-- One turn; nothing happens once the sequence is done. -/
def turn (model : SmallTransformer α) (state : PrivateState α) : PrivateState α :=
  if state.seq.isDone then state
  else
    let (row, store) := model.decodeRow state.store state.seq.decodeInput
    match state.seq.advance row with
    | none => state
    | some (_, seq) => ⟨seq, store⟩

/-- The state after so many turns. -/
def after (model : SmallTransformer α) (req : GenerationRequest α) (handle : KvHandle) :
    ℕ → PrivateState α
  | 0 => start model req handle
  | turns + 1 => turn model (after model req handle turns)

variable {model : SmallTransformer α} {req : GenerationRequest α} {handle : KvHandle}

theorem turn_of_done {state : PrivateState α} (hdone : state.seq.isDone = true) :
    turn model state = state := if_pos hdone

theorem turn_of_not_done {state : PrivateState α} (hdone : state.seq.isDone = false)
    {tokens : List Token} {stepped : Sequence α}
    (hadvance : state.seq.advance (model.decodeRow state.store state.seq.decodeInput).1 =
      some (tokens, stepped)) :
    turn model state = ⟨stepped, (model.decodeRow state.store state.seq.decodeInput).2⟩ := by
  unfold turn
  rw [if_neg (by simp [hdone])]
  dsimp only
  rw [hadvance]

theorem serves_after (turns : ℕ) : Sequence.Serves req (after model req handle turns).seq := by
  induction turns with
  | zero => exact Sequence.Serves.start req handle
  | succ turns ih =>
      rw [after]
      cases hdone : (after model req handle turns).seq.isDone with
      | true => rwa [turn_of_done hdone]
      | false =>
          obtain ⟨tokens, stepped, hadvance⟩ := ih.exists_advance
            (model.decodeRow (after model req handle turns).store
              (after model req handle turns).seq.decodeInput).1
          rw [turn_of_not_done hdone hadvance]
          exact ih.advance hdone hadvance

@[simp]
theorem kvHandle_after (turns : ℕ) : (after model req handle turns).seq.kvHandle = handle := by
  induction turns with
  | zero => exact Sequence.markRunning_kvHandle _
  | succ turns ih =>
      rw [after]
      cases hdone : (after model req handle turns).seq.isDone with
      | true => rwa [turn_of_done hdone]
      | false =>
          obtain ⟨tokens, stepped, hadvance⟩ := (serves_after turns).exists_advance
            (model.decodeRow (after model req handle turns).store
              (after model req handle turns).seq.decodeInput).1
          rw [turn_of_not_done hdone hadvance]
          obtain ⟨-, -, hhandle, -⟩ := Sequence.advance_frame hadvance
          exact hhandle.trans ih

/-- One turn of an unfinished run, spelled out. -/
theorem after_succ {turns : ℕ} (hdone : (after model req handle turns).seq.isDone = false) :
    ∃ tokens stepped,
      (after model req handle turns).seq.advance
        (model.decodeRow (after model req handle turns).store
          (after model req handle turns).seq.decodeInput).1 = some (tokens, stepped) ∧
      after model req handle (turns + 1) =
        ⟨stepped, (model.decodeRow (after model req handle turns).store
          (after model req handle turns).seq.decodeInput).2⟩ := by
  obtain ⟨tokens, stepped, hadvance⟩ := (serves_after turns).exists_advance
    (model.decodeRow (after model req handle turns).store
      (after model req handle turns).seq.decodeInput).1
  exact ⟨tokens, stepped, hadvance, turn_of_not_done hdone hadvance⟩

theorem decodeRow_withHandle (store : KvStore α) (seq : Sequence α) (other : KvHandle) :
    model.decodeRow store (seq.withHandle other).decodeInput =
      model.decodeRow store seq.decodeInput := by
  cases model with
  | gpt2 model => rfl
  | scripted model => rfl

/-- The handle is never looked at. -/
theorem after_withHandle (turns : ℕ) (other : KvHandle) :
    after model req other turns =
      ⟨(after model req handle turns).seq.withHandle other, (after model req handle turns).store⟩ := by
  induction turns with
  | zero => rfl
  | succ turns ih =>
      cases hdone : (after model req handle turns).seq.isDone with
      | true =>
          rw [after, after, turn_of_done hdone, ih]
          exact turn_of_done hdone
      | false =>
          obtain ⟨tokens, stepped, hadvance, hafter⟩ := after_succ hdone
          have hmoved := Sequence.advance_withHandle other hadvance
          rw [← decodeRow_withHandle _ _ other] at hmoved
          rw [hafter, after, ih, ← decodeRow_withHandle _ _ other]
          apply turn_of_not_done
          · exact hdone
          · exact hmoved

theorem generated_after_succ_prefix (turns : ℕ) :
    (after model req handle turns).seq.generatedTokens <+:
      (after model req handle (turns + 1)).seq.generatedTokens := by
  cases hdone : (after model req handle turns).seq.isDone with
  | true =>
      rw [after, turn_of_done hdone]
  | false =>
      obtain ⟨tokens, stepped, hadvance, hafter⟩ := after_succ hdone
      obtain ⟨-, -, -, -, -, -, hgenerated⟩ := Sequence.advance_frame hadvance
      rw [hafter, hgenerated]
      exact List.prefix_append _ _

/-- The run only ever appends tokens. -/
theorem generated_after_prefix {earlier later : ℕ} (hle : earlier ≤ later) :
    (after model req handle earlier).seq.generatedTokens <+:
      (after model req handle later).seq.generatedTokens := by
  induction later, hle using Nat.le_induction with
  | base => exact List.prefix_refl _
  | succ later _ ih => exact ih.trans <| generated_after_succ_prefix later

/-- Once it is done, the run stands still. -/
theorem after_of_done {earlier later : ℕ} (hle : earlier ≤ later)
    (hdone : (after model req handle earlier).seq.isDone = true) :
    after model req handle later = after model req handle earlier := by
  induction later, hle using Nat.le_induction with
  | base => rfl
  | succ later _ ih => rw [after, ih, turn_of_done hdone]

/-- An unfinished run has one token for every turn, and is below the limit. -/
theorem generated_length {turns : ℕ} (hnew : 0 < req.maxNewTokens)
    (hdone : (after model req handle turns).seq.isDone = false) :
    (after model req handle turns).seq.generatedTokens.length = turns ∧
      turns < req.maxNewTokens := by
  induction turns with
  | zero => exact ⟨rfl, hnew⟩
  | succ turns ih =>
      cases hbefore : (after model req handle turns).seq.isDone with
      | true =>
          rw [after, turn_of_done hbefore, hbefore] at hdone
          cases hdone
      | false =>
          obtain ⟨hlength, -⟩ := ih hbefore
          obtain ⟨tokens, stepped, hadvance, hafter⟩ := after_succ hbefore
          obtain ⟨-, -, -, -, -, -, hgenerated⟩ := Sequence.advance_frame hadvance
          rw [hafter] at hdone ⊢
          have hserves : Sequence.Serves req (after model req handle turns).seq := serves_after turns
          have hreason := hserves.finishReason_of_not_done hbefore
          rcases Sequence.advance_state hadvance hreason with ⟨hstate, -⟩ | ⟨-, -, hlimit⟩
          · simp [Sequence.isDone, hstate] at hdone
          · constructor
            · rw [hgenerated, List.length_append, hlength]
              rfl
            · rw [hlength] at hlimit
              unfold Sampler.maxNewTokens at hlimit
              rwa [hserves.config_eq] at hlimit

/-- The limit on new tokens ends every run. -/
theorem done_after_maxNewTokens (hnew : 0 < req.maxNewTokens) :
    (after model req handle req.maxNewTokens).seq.isDone = true := by
  by_contra hdone
  exact Nat.lt_irrefl _ (generated_length hnew (Bool.not_eq_true _ ▸ hdone)).2

/-! ## What the run asks of the model -/

/-- The model processes the prompt and the rows of the first turns. -/
structure Accepted (model : SmallTransformer α) (req : GenerationRequest α) (handle : KvHandle)
    (turns : ℕ) : Prop where
  prompt : model.AcceptsPrompt req.promptTokens
  rows : ∀ turn < turns, (after model req handle turn).seq.isDone = false →
    model.AcceptsInput (after model req handle turn).seq.decodeInput

theorem Accepted.mono {earlier later : ℕ} (haccepted : Accepted model req handle later)
    (hle : earlier ≤ later) : Accepted model req handle earlier :=
  { haccepted with rows := fun turn hturn ↦ haccepted.rows turn (hturn.trans_le hle) }

theorem Accepted.withHandle {turns : ℕ} (haccepted : Accepted model req handle turns)
    (other : KvHandle) : Accepted model req other turns where
  prompt := haccepted.prompt
  rows := by
    intro turn hturn hdone
    have hsame : after model req other turn =
        ⟨(after model req handle turn).seq.withHandle other, (after model req handle turn).store⟩ :=
      after_withHandle turn other
    rw [hsame] at hdone ⊢
    exact haccepted.rows turn hturn hdone

end PrivateState

/-- What validation promises: a prompt, at least one new token, and a total that fits the word. -/
structure GenerationRequest.Admissible {α : Type} (req : GenerationRequest α) : Prop where
  prompt_ne : req.promptTokens ≠ []
  maxNew_pos : 0 < req.maxNewTokens
  total_lt : req.promptLen + req.maxNewTokens < Usize.size

namespace PrivateState

variable {α : Type} [Kernels α] {model : SmallTransformer α} {req : GenerationRequest α}
  {handle : KvHandle}

/-- An unfinished run is at the position after its prompt and its tokens so far. -/
theorem decodePosition_after (hadmissible : req.Admissible) {turns : ℕ}
    (hdone : (after model req handle turns).seq.isDone = false) :
    (after model req handle turns).seq.decodePosition = req.promptLen - 1 + turns := by
  obtain ⟨hlength, hlt⟩ := generated_length hadmissible.maxNew_pos hdone
  have htotal := hadmissible.total_lt
  unfold Sequence.decodePosition
  rw [(serves_after turns).promptTokens_eq, hlength]
  unfold GenerationRequest.promptLen at htotal ⊢
  exact Usize.saturatingAdd_eq_add (by omega)

/-- The next position is still within the prompt and the new tokens. -/
theorem decodePosition_lt (hadmissible : req.Admissible) {turns : ℕ}
    (hdone : (after model req handle turns).seq.isDone = false) :
    (after model req handle turns).seq.decodePosition + 1 ≤ req.promptLen + req.maxNewTokens - 1 := by
  have hprompt : 0 < req.promptLen := List.length_pos_iff.mpr hadmissible.prompt_ne
  have hlt := (generated_length hadmissible.maxNew_pos hdone).2
  rw [decodePosition_after hadmissible hdone]
  omega

/-- **As many tokens are cached as the position says**, before every turn. -/
theorem cachedTokens_after (hadmissible : req.Admissible) {turns : ℕ}
    (haccepted : Accepted model req handle turns)
    (hdone : (after model req handle turns).seq.isDone = false) :
    model.CachedTokens (after model req handle turns).store
      (after model req handle turns).seq.decodePosition := by
  induction turns with
  | zero =>
      rw [decodePosition_after hadmissible hdone]
      exact SmallTransformer.cachedTokens_prefillStore haccepted.prompt fun _ ↦ rfl
  | succ turns ih =>
      cases hbefore : (after model req handle turns).seq.isDone with
      | true =>
          rw [after, turn_of_done hbefore, hbefore] at hdone
          cases hdone
      | false =>
          have hcached := ih (haccepted.mono (Nat.le_succ _)) hbefore
          have hlast := decodePosition_lt hadmissible hbefore
          have htotal := hadmissible.total_lt
          obtain ⟨tokens, stepped, -, hafter⟩ := after_succ hbefore
          rw [decodePosition_after hadmissible hdone, hafter]
          have hposition : (after model req handle turns).seq.decodeInput.position < Usize.maxValue := by
            unfold Usize.maxValue
            change Sequence.decodePosition _ < _
            omega
          have hnext := SmallTransformer.cachedTokens_decodeRow hcached hposition
          change model.CachedTokens _ (Sequence.decodePosition _ + 1) at hnext
          rwa [decodePosition_after hadmissible hbefore, Nat.add_assoc] at hnext

end PrivateState

end HotBatch
