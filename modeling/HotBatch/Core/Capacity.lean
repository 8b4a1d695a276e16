import HotBatch.Core.PrivatePass

/-!
# What fits

Whether a model pass accepts a sequence splits into a part that is about its tokens and position
alone and a part that is about room in the cache. In a cache of the model's shape the second part
follows from the token counts: a prefill stores all but the last token of the prompt, and a decode
pass one more token at every layer.
-/

namespace HotBatch

variable {α : Type} [Kernels α]

namespace Gpt2Model

omit [Kernels α] in
theorem storedTokens_update (store : KvStore α) (layer other : ℕ) (entry : KvTensor α × KvTensor α) :
    storedTokens (Function.update store layer (some entry)) other =
      if other = layer then entry.1.rows.length else storedTokens store other := by
  unfold storedTokens
  by_cases heq : other = layer
  · subst heq
    simp
  · rw [Function.update_of_ne heq, if_neg heq]

/-- The blocks from one layer on store one more token at each of their layers. -/
theorem storedTokens_decodeBlocks (blocks : List (Gpt2Block α)) (layer : ℕ) (store : KvStore α)
    (x : Row α) (other : ℕ) :
    storedTokens (decodeBlocks layer blocks store x).2 other =
      storedTokens store other +
        if layer ≤ other ∧ other < layer + blocks.length then 1 else 0 := by
  induction blocks generalizing layer store x with
  | nil =>
      rw [decodeBlocks, if_neg (by rw [List.length_nil]; omega)]
      rfl
  | cons block blocks ih =>
      have hentry : (block.decodeRow (store layer) x).2.1.rows.length =
          storedTokens store layer + 1 := Gpt2Attention.length_extend _ _ _ _
      rw [decodeBlocks, ih, storedTokens_update, hentry, List.length_cons]
      by_cases heq : other = layer
      · subst heq
        rw [if_pos rfl, if_neg (by omega), if_pos (by omega)]
      · rw [if_neg heq]
        congr 1
        split_ifs <;> first | rfl | omega

/-- A prefill stores the whole block of rows at every layer. -/
theorem storedTokens_prefillBlocks (blocks : List (Gpt2Block α)) (layer : ℕ) (store : KvStore α)
    (xs : List (Row α)) (other : ℕ) :
    storedTokens (prefillBlocks layer blocks store xs).2 other =
      if layer ≤ other ∧ other < layer + blocks.length then xs.length
      else storedTokens store other := by
  induction blocks generalizing layer store xs with
  | nil =>
      rw [prefillBlocks, if_neg (by rw [List.length_nil]; omega)]
  | cons block blocks ih =>
      have hentry : (block.prefillRows xs).2.1.rows.length = xs.length := by
        simp [Gpt2Block.prefillRows, Gpt2Attention.toKv]
      rw [prefillBlocks, ih, storedTokens_update, hentry, Gpt2Block.length_prefillRows,
        List.length_cons]
      by_cases heq : other = layer
      · subst heq
        rw [if_neg (by omega), if_pos rfl, if_pos (by omega)]
      · rw [if_neg heq]
        split_ifs <;> first | rfl | omega

end Gpt2Model

namespace SmallTransformer

variable {model : SmallTransformer α} {cache : SlabKvCache (KvTensor α)}

/-- The layers whose length counts the cached tokens: all of GPT-2, the first of the scripted
backend. -/
def countedLayers : SmallTransformer α → ℕ
  | .gpt2 model => model.config.nLayer
  | .scripted _ => 1

/-- What a decode pass asks of a row apart from room in the cache. -/
def AcceptsInput (model : SmallTransformer α) (input : DecodeInput) : Prop :=
  input.position < model.maxPositions ∧
    match model with
    | .gpt2 model => input.lastToken.toNat < model.config.vocabSize
    | .scripted _ => True

/-- What a prefill asks of a prompt apart from room in the cache. -/
def AcceptsPrompt (model : SmallTransformer α) (promptTokens : List Token) : Prop :=
  promptTokens.length ≤ model.maxPositions ∧
    match model with
    | .gpt2 model =>
        promptTokens.length - 1 = 0 ∨ ∃ xs, model.promptRows promptTokens = .ok xs
    | .scripted _ => True

/-- The cache was built with the model's `kv_shape()`. -/
structure ShapedFor (model : SmallTransformer α) (cache : SlabKvCache (KvTensor α)) : Prop where
  numLayers_eq : cache.numLayers = model.kvShape.1
  nHeads_eq : cache.nHeads = model.kvShape.2.1
  headDim_eq : cache.headDim = model.kvShape.2.2

/-- As many tokens are cached as the position says. -/
def CachedTokens (model : SmallTransformer α) (store : KvStore α) (tokens : ℕ) : Prop :=
  ∀ layer < model.countedLayers, storedTokens store layer = tokens

/-- **A decode pass caches one more token.** -/
theorem cachedTokens_decodeRow {store : KvStore α} {input : DecodeInput}
    (hcached : model.CachedTokens store input.position) (hposition : input.position < Usize.maxValue) :
    model.CachedTokens (model.decodeRow store input).2 (input.position + 1) := by
  intro layer hlayer
  cases model with
  | gpt2 model =>
      have hstep := Gpt2Model.storedTokens_decodeBlocks model.blocks 0 store
        (model.embedRow input.lastToken (UInt32.ofNat input.position)) layer
      change layer < model.config.nLayer at hlayer
      rw [model.blocks_length, if_pos ⟨Nat.zero_le _, by omega⟩, hcached layer hlayer] at hstep
      exact hstep
  | scripted model =>
      obtain rfl : layer = 0 := Nat.lt_one_iff.mp hlayer
      change storedTokens (Function.update store 0 _) 0 = _
      rw [Gpt2Model.storedTokens_update, if_pos rfl, ScriptedModel.length_marker_rows]
      unfold Usize.saturatingAdd
      omega

/-- **A prefill caches all but the last token of the prompt.** -/
theorem cachedTokens_prefillStore {store : KvStore α} {promptTokens : List Token}
    (haccepts : model.AcceptsPrompt promptTokens) (hfresh : ∀ layer, store layer = none) :
    model.CachedTokens (model.prefillStore promptTokens store) (promptTokens.length - 1) := by
  intro layer hlayer
  cases model with
  | gpt2 model =>
      change layer < model.config.nLayer at hlayer
      change storedTokens (model.prefillStore promptTokens store) layer = _
      unfold Gpt2Model.prefillStore
      by_cases hone : promptTokens.length - 1 = 0
      · rw [if_pos hone, hone]
        unfold storedTokens
        rw [hfresh]
        rfl
      · obtain ⟨xs, hxs⟩ := haccepts.2.resolve_left hone
        obtain ⟨-, rows, rfl, hlen⟩ := Gpt2Model.promptRows_eq_ok hxs
        rw [if_neg hone, hxs]
        dsimp only
        rw [Gpt2Model.storedTokens_prefillBlocks, model.blocks_length,
          if_pos ⟨Nat.zero_le _, by omega⟩, hlen]
  | scripted model =>
      obtain rfl : layer = 0 := Nat.lt_one_iff.mp hlayer
      change storedTokens (Function.update store 0 _) 0 = _
      rw [Gpt2Model.storedTokens_update, if_pos rfl, ScriptedModel.length_marker_rows]

omit [Kernels α] in
theorem RowOk.accepts {input : DecodeInput} (hok : model.RowOk cache input) :
    model.AcceptsInput input := by
  refine ⟨hok.1, ?_⟩
  cases model with
  | gpt2 model => exact hok.2.token_lt
  | scripted model => trivial

theorem PrefillOk.accepts {promptTokens : List Token} {handle : KvHandle}
    (hok : model.PrefillOk cache promptTokens handle) : model.AcceptsPrompt promptTokens := by
  refine ⟨hok.1, ?_⟩
  cases model with
  | gpt2 model => exact hok.2.imp_right And.left
  | scripted model => trivial

/-- A prefill that succeeds leaves the tensors of the prompt behind. -/
theorem prefill_eq_ok {cache' : SlabKvCache (KvTensor α)} {promptTokens : List Token}
    {handle : KvHandle} (hwf : cache.Wf) (hcurrent : cache.IsCurrentHandle handle)
    (hrun : model.prefill promptTokens handle cache = (.ok (), cache')) :
    model.AcceptsPrompt promptTokens ∧
      cache'.stored handle = model.prefillStore promptTokens (cache.stored handle) := by
  by_cases hok : model.PrefillOk cache promptTokens handle
  · obtain ⟨after, hafter, hstored⟩ := prefill_of_ok hwf hcurrent hok
    rw [hrun] at hafter
    obtain ⟨-, rfl⟩ := Prod.mk.inj hafter
    exact ⟨hok.accepts, hstored⟩
  · obtain ⟨err, herr⟩ := prefill_of_not_ok hwf hcurrent hok
    rw [hrun] at herr
    cases herr

/-- A decode pass over a single row that succeeds computes it. -/
theorem forward_eq_ok {cache' : SlabKvCache (KvTensor α)} {input : DecodeInput}
    {logits : List (LogitRow α)} (hwf : cache.Wf) (hcurrent : cache.IsCurrentHandle input.kvHandle)
    (hrun : model.forward [input] cache = (.ok logits, cache')) :
    model.AcceptsInput input ∧
      logits = [(model.decodeRow (cache.stored input.kvHandle) input).1] ∧
      cache'.stored input.kvHandle = (model.decodeRow (cache.stored input.kvHandle) input).2 := by
  have hnodup : ([input].map DecodeInput.kvHandle).Nodup := List.nodup_singleton _
  have hall : ∀ other ∈ [input], cache.IsCurrentHandle other.kvHandle := by
    intro other hother
    rw [List.mem_singleton.mp hother]
    exact hcurrent
  by_cases hok : model.RowOk cache input
  · obtain ⟨after, hafter, hstored⟩ := forward_of_rowsOk [input] hwf hnodup hall (by
      intro other hother
      rw [List.mem_singleton.mp hother]
      exact hok)
    rw [hrun] at hafter
    obtain ⟨hlogits, rfl⟩ := Prod.mk.inj hafter
    exact ⟨hok.accepts, Except.ok.inj hlogits, hstored input (List.mem_singleton_self input)⟩
  · obtain ⟨err, herr⟩ := forward_of_not_rowsOk [input] hwf hnodup hall
      ⟨input, List.mem_singleton_self input, hok⟩
    rw [hrun] at herr
    cases herr

section Shaped

omit [Kernels α]

theorem shapedFor_new (model : SmallTransformer α) (maxSeqs maxSeqLen : ℕ) :
    model.ShapedFor (.new maxSeqs maxSeqLen model.kvShape.1 model.kvShape.2.1 model.kvShape.2.2) :=
  ⟨rfl, rfl, rfl⟩

/-- In a cache of the model's shape, a write is only ever refused for the number of its tokens. -/
theorem ShapedFor.fits (hshape : model.ShapedFor cache) {layer tokens : ℕ} {handle : KvHandle}
    (hlayer : layer < model.kvShape.1) (htokens : tokens ≤ handle.capacityTokens) :
    Fits cache model.kvShape.2.1 model.kvShape.2.2 layer handle tokens where
  layer_lt := hshape.numLayers_eq ▸ hlayer
  heads_eq := hshape.nHeads_eq.symm
  headDim_eq := hshape.headDim_eq.symm
  tokens_le := htokens

/-- With room for one more token, only the token and its position decide about a row. -/
theorem AcceptsInput.rowOk {input : DecodeInput} (haccepts : model.AcceptsInput input)
    (hshape : model.ShapedFor cache)
    (hcached : model.CachedTokens (cache.stored input.kvHandle) input.position)
    (hcapacity : input.position + 1 ≤ input.kvHandle.capacityTokens) : model.RowOk cache input := by
  refine ⟨haccepts.1, ?_⟩
  cases model with
  | gpt2 model =>
      refine ⟨haccepts.2, ?_, ?_⟩
      · calc (UInt32.ofNat input.position).toNat
            = input.position % 2 ^ 32 := UInt32.toNat_ofNat'
          _ ≤ input.position := Nat.mod_le _ _
          _ < model.config.maxPositions := haccepts.1
      · intro layer _ hlt
        rw [Nat.zero_add] at hlt
        rw [hcached layer hlt]
        exact hshape.fits hlt hcapacity
  | scripted model =>
      refine hshape.fits (show 0 < 12 by decide) (Nat.le_trans ?_ hcapacity)
      exact Nat.min_le_left _ _

end Shaped

/-- With room for the prompt, only its tokens decide about a prefill. -/
theorem AcceptsPrompt.prefillOk {promptTokens : List Token} {handle : KvHandle}
    (haccepts : model.AcceptsPrompt promptTokens) (hshape : model.ShapedFor cache)
    (hcapacity : promptTokens.length - 1 ≤ handle.capacityTokens) :
    model.PrefillOk cache promptTokens handle := by
  refine ⟨haccepts.1, ?_⟩
  cases model with
  | gpt2 model =>
      exact haccepts.2.imp_right fun hrows ↦ ⟨hrows, fun layer hlt ↦ hshape.fits hlt hcapacity⟩
  | scripted model => exact hshape.fits (show 0 < 12 by decide) hcapacity

end SmallTransformer

end HotBatch
