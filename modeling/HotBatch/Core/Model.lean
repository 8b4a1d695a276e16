import HotBatch.Core.Gpt2

/-!
# The model behind both engines

`SmallTransformer` is either the GPT-2 backend or the scripted test backend, which computes its
logits from a fixed script and keeps only a marker of the right length in the cache. The checks of
prompt length and positions are made here, in front of both backends.
-/

namespace HotBatch

/-- The scripted backend. `vocab_size` is the tokenizer's, already raised to at least one. -/
structure ScriptedModel where
  vocabSize : ℕ
  scriptTokens : List Token
  vocab_pos : 0 < vocabSize
  script_ne_nil : scriptTokens ≠ []

namespace ScriptedModel

/-- Layers, heads and head dimension the scripted backend asks the cache for. -/
def kvShape : ℕ × ℕ × ℕ := (12, 12, 64)

def maxPositions : ℕ := 1024

variable {α : Type} [Kernels α]

/-- The all-zero tensor that stands for `tokens` cached tokens. -/
def marker (tokens : ℕ) : KvTensor α := CacheTensor.zeros kvShape.2.1 tokens kvShape.2.2

def prefill (promptTokens : List Token) (handle : KvHandle) : KvM α Unit :=
  KvM.write handle 0 (marker (promptTokens.length - 1)) (marker (promptTokens.length - 1))

/-- A script token as an index of the logit row. -/
def scriptIndex (model : ScriptedModel) (index : ℕ) : ℕ :=
  min (model.scriptTokens.getD (index % model.scriptTokens.length) 0).toNat (model.vocabSize - 1)

/-- The logits of one row: the script's token first, the one after it second. -/
def logits (model : ScriptedModel) (lastToken : Token) (position : ℕ) (promptHash seed : UInt64) :
    LogitRow α :=
  let offset := (promptHash ^^^ seed).toNat % model.scriptTokens.length
  let jitter := (lastToken.toNat + position + 17) % Usize.size % model.vocabSize
  (((List.replicate model.vocabSize (-12.0 : α)).set (model.scriptIndex (position + offset))
    12.0).set (model.scriptIndex (position + offset + 1)) 8.0).set jitter 3.0

/-- The loop of `forward`. -/
def forward (model : ScriptedModel) : List DecodeInput → KvM α (List (LogitRow α))
  | [] => pure []
  | input :: batch => do
      let logits := model.logits input.lastToken input.position input.promptHash input.seed
      let tokens := Usize.saturatingAdd input.position 1
      KvM.write input.kvHandle 0 (marker tokens) (marker tokens)
      let rows ← forward model batch
      pure (logits :: rows)

@[simp]
theorem length_logits (model : ScriptedModel) (lastToken : Token) (position : ℕ)
    (promptHash seed : UInt64) :
    (model.logits lastToken position promptHash seed : LogitRow α).length = model.vocabSize := by
  simp [logits]

end ScriptedModel

inductive SmallTransformer (α : Type) where
  | gpt2 (model : Gpt2Model α)
  | scripted (model : ScriptedModel)

namespace SmallTransformer

variable {α : Type}

def kvShape : SmallTransformer α → ℕ × ℕ × ℕ
  | .gpt2 model => (model.config.nLayer, model.config.nHead, model.headDim)
  | .scripted _ => ScriptedModel.kvShape

def maxPositions : SmallTransformer α → ℕ
  | .gpt2 model => model.config.maxPositions
  | .scripted _ => ScriptedModel.maxPositions

def vocabSize : SmallTransformer α → ℕ
  | .gpt2 model => model.config.vocabSize
  | .scripted model => model.vocabSize

variable [Kernels α]

def prefill (model : SmallTransformer α) (promptTokens : List Token) (handle : KvHandle) :
    KvM α Unit := do
  if model.maxPositions < promptTokens.length then
    throw (.promptTooLong promptTokens.length model.maxPositions)
  match model with
  | .gpt2 model => model.prefill promptTokens handle
  | .scripted _ => ScriptedModel.prefill promptTokens handle

def forward (model : SmallTransformer α) (batch : List DecodeInput) : KvM α (List (LogitRow α)) :=
  match batch.find? fun input ↦ model.maxPositions ≤ input.position with
  | some input => throw (.positionOutOfRange input.position model.maxPositions input.seqId)
  | none =>
      match model with
      | .gpt2 model => model.forward batch
      | .scripted model => model.forward batch

end SmallTransformer

/-- `DecodeLogits::row`. -/
def logitRow {α : Type} (logits : List (LogitRow α)) (index : ℕ) : Except ModelError (LogitRow α) :=
  match logits[index]? with
  | some row => .ok row
  | none => .error (.logitRow index)

theorem logitRow_eq_ok {α : Type} {logits : List (LogitRow α)} {index : ℕ} {row : LogitRow α} :
    logitRow logits index = .ok row ↔ logits[index]? = some row := by
  unfold logitRow
  cases logits[index]? with
  | none => simp
  | some found => simp

theorem eq_of_logitRow_error {α : Type} {logits : List (LogitRow α)} {index : ℕ} {err : ModelError}
    (herr : logitRow logits index = .error err) : err = .logitRow index := by
  unfold logitRow at herr
  split at herr
  · cases herr
  · exact (Except.error.inj herr).symm

/-- The row of a decode batch that a running sequence contributes. -/
def Sequence.decodeInput {α : Type} (seq : Sequence α) : DecodeInput where
  seqId := seq.id
  kvHandle := seq.kvHandle
  lastToken := seq.lastToken
  position := seq.decodePosition
  promptHash := seq.promptHash
  seed := seq.seed

end HotBatch
