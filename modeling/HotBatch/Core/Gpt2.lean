import HotBatch.Core.KvCache
import HotBatch.Core.Sequence

/-!
# The GPT-2 backend

Tensors are lists: a batch is a list of sequences, a sequence a list of positions, and a position a
row of numbers. Cached keys and values have one row per token, which is the concatenation of that
token's head vectors. The kernels of the tensor library that compute on one position, layer norm and
gelu, are parameters; embedding lookups, projections, attention scores, the causal mask, softmax and
the traffic with the cache are written out.

Shapes that the loader fixes are fields of the model, so the operations here never meet a shape
mismatch except where the source itself can: lookups of ids that are out of range, addition of
position embeddings, concatenation with cached tensors, and writes to the cache.
-/

namespace HotBatch

/-- The kernels of the tensor library, which act on single positions, and the texts of its
failures. -/
class Kernels (α : Type) extends Floats α where
  layerNorm : (weight bias : List α) → (eps : α) → List α → List α
  gelu : α → α
  indexError : (index size : ℕ) → String
  shapeError : (left right : List ℕ) → String

/-- A cached tensor of shape `[n_heads, tokens, head_dim]`, one row per token. -/
structure KvTensor (α : Type) where
  nHeads : ℕ
  headDim : ℕ
  rows : List (List α)
  deriving DecidableEq

instance {α : Type} [Zero α] : CacheTensor (KvTensor α) where
  dims tensor := [tensor.nHeads, tensor.rows.length, tensor.headDim]
  zeros heads tokens headDim :=
    ⟨heads, headDim, List.replicate tokens (List.replicate (heads * headDim) 0)⟩
  dims_zeros := by simp

/-- The failures of the model, with the values their messages show. -/
inductive ModelError where
  | kv (err : KvError)
  | tensor (text : String)
  | promptTooLong (promptLen maxPositions : ℕ)
  | positionOutOfRange (position maxPositions : ℕ) (seqId : String)
  | prefillHandles (handles : ℕ)
  | decodeSequenceLength (seqLen : ℕ)
  | decodeBatch (batch handles : ℕ)
  | logitRow (index : ℕ)
  deriving DecidableEq

def ModelError.message : ModelError → String
  | .kv err => err.message
  | .tensor text => text
  | .promptTooLong promptLen maxPositions =>
      s!"prompt length {promptLen} exceeds model capacity {maxPositions}"
  | .positionOutOfRange position maxPositions seqId =>
      s!"decode position {position} exceeds model capacity {maxPositions} for sequence {seqId}"
  | .prefillHandles handles => s!"prefill expects one sequence, got {handles}"
  | .decodeSequenceLength seqLen => s!"decode expects sequence length 1, got {seqLen}"
  | .decodeBatch batch handles =>
      s!"decode batch/handle mismatch: batch={batch}, handles={handles}"
  | .logitRow index => s!"logit row {index} out of range"

/-- Computations that fail with a model error and use the cache. -/
abbrev KvM (α : Type) := ExceptT ModelError (StateM (SlabKvCache (KvTensor α)))

/-- One row of numbers: the hidden state of a position, or a projection of it. -/
abbrev Row (α : Type) := List α

section Cache

variable {α β : Type} [Zero α]

def KvM.ofExcept (result : Except ModelError β) : KvM α β := fun cache ↦ (result, cache)

def KvM.read (handle : KvHandle) (layer : ℕ) : KvM α (KvTensor α × KvTensor α) := fun cache ↦
  ((cache.read handle layer).mapError .kv, cache)

def KvM.write (handle : KvHandle) (layer : ℕ) (k v : KvTensor α) : KvM α Unit := fun cache ↦
  let (result, cache) := cache.write handle layer k v
  (result.mapError .kv, cache)

end Cache

section Layers

variable {α : Type} [Kernels α]

def dot (left right : Row α) : α := Scalar.sum (List.zipWith (· * ·) left right)

def addRows (left right : Row α) : Row α := List.zipWith (· + ·) left right

structure Embedding (α : Type) where
  rows : List (Row α)

/-- Look up one id. -/
def Embedding.lookup (embedding : Embedding α) (token : Token) : Except ModelError (Row α) :=
  match embedding.rows[token.toNat]? with
  | some row => .ok row
  | none => .error (.tensor (Kernels.indexError α token.toNat embedding.rows.length))

def Embedding.forward (embedding : Embedding α) (tokens : List Token) :
    Except ModelError (List (Row α)) := tokens.mapM embedding.lookup

/-- `broadcast_add` of token and position embeddings along the sequence axis. -/
def broadcastAdd (left right : List (Row α)) : Except ModelError (List (Row α)) :=
  if left.length = right.length then .ok (List.zipWith addRows left right)
  else
    match left, right with
    | left, [row] => .ok (left.map (addRows · row))
    | [row], right => .ok (right.map (addRows row))
    | left, right => .error (.tensor (Kernels.shapeError α [left.length] [right.length]))

structure LayerNorm (α : Type) where
  weight : List α
  bias : List α
  eps : α

def LayerNorm.forward (norm : LayerNorm α) (row : Row α) : Row α :=
  Kernels.layerNorm norm.weight norm.bias norm.eps row

inductive ConvLayout where
  | inOut
  | outIn
  deriving DecidableEq

structure Conv1D (α : Type) where
  weight : List (List α)
  bias : List α
  layout : ConvLayout
  outDim : ℕ

def Conv1D.matmul2d (conv : Conv1D α) (row : Row α) : Row α :=
  match conv.layout with
  | .inOut => (List.range conv.outDim).map fun column ↦ dot row (conv.weight.map (·.getD column 0))
  | .outIn => conv.weight.map (dot row)

def Conv1D.forward (conv : Conv1D α) (row : Row α) : Row α :=
  addRows (conv.matmul2d row) conv.bias

structure Gpt2Mlp (α : Type) where
  cFc : Conv1D α
  cProj : Conv1D α

def Gpt2Mlp.forward (mlp : Gpt2Mlp α) (row : Row α) : Row α :=
  mlp.cProj.forward ((mlp.cFc.forward row).map Kernels.gelu)

/-! ## Attention -/

/-- Scores after masking; `none` is negative infinity. -/
abbrev Scores (α : Type) := List (Option α)

/-- The running maximum of softmax, which starts at negative infinity. -/
def maxScore : Option α → Option α → Option α
  | none, score => score
  | some best, none => some best
  | some best, some score => some (if Scalar.lt best score then score else best)

/-- A masked score has weight zero. -/
def scoreWeight (best : α) : Option α → α
  | none => 0
  | some score => Scalar.exp (score - best)

def softmax (scores : Scores α) : List α :=
  let best := (scores.foldl maxScore none).getD 0
  let weights := scores.map (scoreWeight best)
  let total := Scalar.sum weights
  weights.map (· / total)

/-- Row `index` of the causal mask: set where the column lies in the future. -/
def causalMask (index column : ℕ) : Bool := decide (index < column)

/-- `masked_fill` with negative infinity. -/
def maskedFill (mask : ℕ → Bool) (scores : List α) : Scores α :=
  scores.zipIdx.map fun (score, column) ↦ if mask column then none else some score

structure Gpt2Attention (α : Type) where
  cAttn : Conv1D α
  cProj : Conv1D α
  nHead : ℕ
  headDim : ℕ
  scale : α

/-- Query, key and value of one position. -/
structure Qkv (α : Type) where
  query : Row α
  key : Row α
  value : Row α

namespace Gpt2Attention

variable (attn : Gpt2Attention α)

def project (row : Row α) : Qkv α :=
  let hidden := row.length
  let qkv := attn.cAttn.forward row
  ⟨qkv.take hidden, (qkv.drop hidden).take hidden, (qkv.drop (2 * hidden)).take hidden⟩

/-- The part of a row that belongs to one head. -/
def headPart (head : ℕ) (row : Row α) : Row α := (row.drop (head * attn.headDim)).take attn.headDim

/-- Scaled dot products of one query with all keys. -/
def scores (query : Row α) (keys : List (Row α)) : List α :=
  keys.map fun key ↦ dot query key * attn.scale

/-- Weighted sum of the values, column by column. -/
def mix (weights : List α) (values : List (Row α)) : Row α :=
  (List.range attn.headDim).map fun column ↦
    Scalar.sum (List.zipWith (fun weight value ↦ weight * value.getD column 0) weights values)

/-- The context of one query over keys and values, with the heads concatenated again. -/
def context (mask : ℕ → Bool) (query : Row α) (keys values : List (Row α)) : Row α :=
  (List.range attn.nHead).flatMap fun head ↦
    attn.mix
      (softmax (maskedFill mask
        (attn.scores (attn.headPart head query) (keys.map (attn.headPart head)))))
      (values.map (attn.headPart head))

/-- Rows of keys or values as a cacheable tensor. -/
def toKv (rows : List (Row α)) : KvTensor α := ⟨attn.nHead, attn.headDim, rows⟩

/-- The contexts of a whole sequence under the causal mask. -/
def causalContexts (qkv : List (Qkv α)) : List (Row α) :=
  qkv.zipIdx.map fun (position, index) ↦
    attn.context (causalMask index) position.query (qkv.map Qkv.key) (qkv.map Qkv.value)

def prefillAttention (qkv : List (List (Qkv α))) (layer : ℕ) (handles : List KvHandle) :
    KvM α (List (List (Row α))) :=
  match handles with
  | [handle] => do
      let contexts := qkv.map attn.causalContexts
      match qkv.head? with
      | none => throw (.tensor (Kernels.indexError α 0 0))
      | some rows =>
          KvM.write handle layer (attn.toKv (rows.map Qkv.key)) (attn.toKv (rows.map Qkv.value))
          pure contexts
  | handles => throw (.prefillHandles handles.length)

/-- `Tensor::cat` along the token axis. -/
def cat (past current : KvTensor α) : Except ModelError (KvTensor α) :=
  if past.nHeads = current.nHeads ∧ past.headDim = current.headDim then
    .ok ⟨current.nHeads, current.headDim, past.rows ++ current.rows⟩
  else
    .error (.tensor (Kernels.shapeError α (CacheTensor.dims past) (CacheTensor.dims current)))

/-- Cached keys and values with those of one more token; nothing is concatenated to an empty
cache. -/
def joined (past : KvTensor α × KvTensor α) (qkv : Qkv α) :
    Except ModelError (KvTensor α × KvTensor α) :=
  if past.1.rows.length = 0 then .ok (attn.toKv [qkv.key], attn.toKv [qkv.value])
  else do
    let k ← cat past.1 (attn.toKv [qkv.key])
    let v ← cat past.2 (attn.toKv [qkv.value])
    pure (k, v)

/-- One iteration of the loop in `decode_attention`: extend the cached tensors of one sequence by its
new token and attend over all of them. -/
def decodeOne (layer : ℕ) (handle : KvHandle) (qkv : Qkv α) : KvM α (Row α) := do
  let past ← KvM.read handle layer
  let total ← KvM.ofExcept (attn.joined past qkv)
  KvM.write handle layer total.1 total.2
  pure (attn.context (fun _ ↦ false) qkv.query total.1.rows total.2.rows)

/-- The loop of `decode_attention`. -/
def decodeRows (layer : ℕ) : List (KvHandle × Qkv α) → KvM α (List (Row α))
  | [] => pure []
  | (handle, qkv) :: rows => do
      let context ← attn.decodeOne layer handle qkv
      let contexts ← decodeRows layer rows
      pure (context :: contexts)

def decodeAttention (qkv : List (List (Qkv α))) (layer : ℕ) (handles : List KvHandle) :
    KvM α (List (List (Row α))) :=
  let seqLen := (qkv.head?.map List.length).getD 0
  if seqLen ≠ 1 then throw (.decodeSequenceLength seqLen)
  else if qkv.length ≠ handles.length then throw (.decodeBatch qkv.length handles.length)
  else do
    let contexts ← attn.decodeRows layer (handles.zip qkv.flatten)
    pure (contexts.map fun context ↦ [context])

/-- The two attention paths. -/
def attention (qkv : List (List (Qkv α))) (layer : ℕ) (handles : List KvHandle) (prefill : Bool) :
    KvM α (List (List (Row α))) :=
  if prefill then attn.prefillAttention qkv layer handles
  else attn.decodeAttention qkv layer handles

def forward (xs : List (List (Row α))) (layer : ℕ) (handles : List KvHandle) (prefill : Bool) :
    KvM α (List (List (Row α))) := do
  let contexts ← attn.attention (xs.map (·.map attn.project)) layer handles prefill
  pure (contexts.map (·.map attn.cProj.forward))

end Gpt2Attention

structure Gpt2Block (α : Type) where
  ln1 : LayerNorm α
  attn : Gpt2Attention α
  ln2 : LayerNorm α
  mlp : Gpt2Mlp α

/-- Everything a block does to one position once its attention output is known. -/
def Gpt2Block.finish (block : Gpt2Block α) (attended residual : Row α) : Row α :=
  let xs := addRows attended residual
  addRows (block.mlp.forward (block.ln2.forward xs)) xs

def Gpt2Block.forward (block : Gpt2Block α) (xs : List (List (Row α))) (layer : ℕ)
    (handles : List KvHandle) (prefill : Bool) : KvM α (List (List (Row α))) := do
  let attended ← block.attn.forward (xs.map (·.map block.ln1.forward)) layer handles prefill
  pure (List.zipWith (List.zipWith block.finish) attended xs)

end Layers

/-! ## The model -/

structure Gpt2Config where
  vocabSize : ℕ
  nPositions : Option ℕ
  nCtx : Option ℕ
  nEmbd : ℕ
  nLayer : ℕ
  nHead : ℕ
  deriving DecidableEq

def Gpt2Config.maxPositions (config : Gpt2Config) : ℕ :=
  (config.nPositions.or config.nCtx).getD 1024

/-- A loaded model: the shapes and the non-zero sizes are what `Gpt2Model::load` checks. -/
structure Gpt2Model (α : Type) where
  config : Gpt2Config
  headDim : ℕ
  wte : Embedding α
  wpe : Embedding α
  blocks : List (Gpt2Block α)
  lnF : LayerNorm α
  vocab_pos : 0 < config.vocabSize
  layers_pos : 0 < config.nLayer
  positions_pos : 0 < config.maxPositions
  wte_length : wte.rows.length = config.vocabSize
  wpe_length : wpe.rows.length = config.maxPositions
  blocks_length : blocks.length = config.nLayer
  blocks_shape : ∀ block ∈ blocks, block.attn.nHead = config.nHead ∧ block.attn.headDim = headDim

/-- One row of a decode batch. -/
structure DecodeInput where
  seqId : String
  kvHandle : KvHandle
  lastToken : Token
  position : ℕ
  promptHash : UInt64
  seed : UInt64
  deriving DecidableEq

namespace Gpt2Model

variable {α : Type} [Kernels α]

/-- Token plus position embeddings of a batch of sequences. -/
def embed (model : Gpt2Model α) (inputIds positionIds : List (List Token)) :
    Except ModelError (List (List (Row α))) := do
  let tokenEmb ← inputIds.mapM model.wte.forward
  let posEmb ← positionIds.mapM model.wpe.forward
  (tokenEmb.zip posEmb).mapM fun (tokens, positions) ↦ broadcastAdd tokens positions

/-- The blocks from layer `layer` on. -/
def forwardBlocks (handles : List KvHandle) (prefill : Bool) :
    ℕ → List (Gpt2Block α) → List (List (Row α)) → KvM α (List (List (Row α)))
  | _, [], xs => pure xs
  | layer, block :: blocks, xs => do
      let xs ← block.forward xs layer handles prefill
      forwardBlocks handles prefill (layer + 1) blocks xs

/-- The final layer norm and the product with the token embeddings. -/
def logits (model : Gpt2Model α) (row : Row α) : LogitRow α :=
  model.wte.rows.map (dot (model.lnF.forward row))

/-- `forward_t`. -/
def forwardT (model : Gpt2Model α) (inputIds positionIds : List (List Token))
    (handles : List KvHandle) (prefill : Bool) : KvM α (List (List (LogitRow α))) := do
  let xs ← KvM.ofExcept (model.embed inputIds positionIds)
  let xs ← forwardBlocks handles prefill 0 model.blocks xs
  pure (xs.map (·.map model.logits))

/-- The position ids `0 … cached_len`, counted in `u32`. -/
def positionIds (len : ℕ) : List Token :=
  (List.range (UInt32.ofNat len).toNat).map UInt32.ofNat

/-- `Gpt2Model::prefill`: everything but the last prompt token. -/
def prefill (model : Gpt2Model α) (promptTokens : List Token) (handle : KvHandle) :
    KvM α Unit := do
  let cachedLen := promptTokens.length - 1
  if cachedLen = 0 then pure ()
  else
    let _ ← model.forwardT [promptTokens.take cachedLen] [positionIds cachedLen] [handle] true
    pure ()

/-- `Gpt2Model::forward`; `squeeze(1)` drops the sequence axis. -/
def forward (model : Gpt2Model α) (batch : List DecodeInput) : KvM α (List (LogitRow α)) := do
  if batch.isEmpty then pure []
  else
    let logits ← model.forwardT (batch.map fun input ↦ [input.lastToken])
      (batch.map fun input ↦ [UInt32.ofNat input.position]) (batch.map DecodeInput.kvHandle) false
    pure logits.flatten

end Gpt2Model

end HotBatch
