import HotBatch.Core.Gpt2Decode

/-!
# A GPT-2 prefill

A prefill runs all but the last token of one prompt through the blocks under the causal mask and
stores every layer's keys and values. What it stores depends on the prompt alone.
-/

namespace HotBatch

variable {α : Type} [Kernels α]

namespace Gpt2Block

/-- What the block computes for a whole prompt: its rows, and the tensors to store. -/
def prefillRows (block : Gpt2Block α) (xs : List (Row α)) :
    List (Row α) × (KvTensor α × KvTensor α) :=
  let qkv := xs.map fun x ↦ block.attn.project (block.ln1.forward x)
  (List.zipWith block.finish ((block.attn.causalContexts qkv).map block.attn.cProj.forward) xs,
    (block.attn.toKv (qkv.map Qkv.key), block.attn.toKv (qkv.map Qkv.value)))

@[simp]
theorem length_prefillRows (block : Gpt2Block α) (xs : List (Row α)) :
    (block.prefillRows xs).1.length = xs.length := by
  simp [prefillRows, Gpt2Attention.causalContexts]

/-- A block in a prefill pass is one write between operations on the prompt's rows. -/
theorem forward_prefill (block : Gpt2Block α) (layer : ℕ) (handle : KvHandle) (xs : List (Row α)) :
    block.forward [xs] layer [handle] true =
      (KvM.write handle layer (block.prefillRows xs).2.1 (block.prefillRows xs).2.2 >>= fun _ ↦
        pure [(block.prefillRows xs).1]) := by
  unfold forward Gpt2Attention.forward Gpt2Attention.attention Gpt2Attention.prefillAttention
  simp [prefillRows, Function.comp_def]

end Gpt2Block

namespace Gpt2Model

/-- The blocks from layer `layer` on, for a whole prompt. -/
def prefillBlocks : ℕ → List (Gpt2Block α) → KvStore α → List (Row α) → List (Row α) × KvStore α
  | _, [], store, xs => (xs, store)
  | layer, block :: blocks, store, xs =>
      let result := block.prefillRows xs
      prefillBlocks (layer + 1) blocks (Function.update store layer (some result.2)) result.1

section Blocks

variable {heads headDim : ℕ}

/-- When the prompt fits, a block stores it and hands its rows to the blocks behind it. -/
theorem forwardBlocks_prefill_cons {block : Gpt2Block α} (blocks : List (Gpt2Block α)) {layer : ℕ}
    {handle : KvHandle} {xs : List (Row α)} {cache : SlabKvCache (KvTensor α)} (hwf : cache.Wf)
    (hcurrent : cache.IsCurrentHandle handle)
    (hnow : Fits cache block.attn.nHead block.attn.headDim layer handle
      (block.prefillRows xs).2.1.rows.length) :
    ∃ middle, forwardBlocks [handle] true layer (block :: blocks) [xs] cache =
        forwardBlocks [handle] true (layer + 1) blocks [(block.prefillRows xs).1] middle ∧
      KvM.Stores cache middle handle layer (block.prefillRows xs).2 ∧
      middle.IsCurrentHandle handle := by
  obtain ⟨middle, hwrite, hstores⟩ := KvM.write_of_fits (v := (block.prefillRows xs).2.2.rows)
    hwf hcurrent (by simp [Gpt2Block.prefillRows, Gpt2Attention.toKv]) hnow
  have hfirst : block.forward [xs] layer [handle] true cache =
      (.ok [(block.prefillRows xs).1], middle) := by
    rw [Gpt2Block.forward_prefill]
    exact KvM.bind_ok hwrite
  exact ⟨middle, KvM.bind_ok hfirst, hstores, (hstores.confined.isCurrentHandle_iff _).mpr hcurrent⟩

theorem forwardBlocks_prefill_of_fits (blocks : List (Gpt2Block α))
    (hshape : ∀ block ∈ blocks, block.attn.nHead = heads ∧ block.attn.headDim = headDim)
    (layer : ℕ) (handle : KvHandle) (xs : List (Row α)) (cache : SlabKvCache (KvTensor α))
    (hwf : cache.Wf) (hcurrent : cache.IsCurrentHandle handle)
    (hfits : ∀ index, layer ≤ index → index < layer + blocks.length →
      Fits cache heads headDim index handle xs.length) :
    ∃ cache', forwardBlocks [handle] true layer blocks [xs] cache =
        (.ok [(prefillBlocks layer blocks (cache.stored handle) xs).1], cache') ∧
      cache'.stored handle = (prefillBlocks layer blocks (cache.stored handle) xs).2 := by
  induction blocks generalizing layer xs cache with
  | nil => exact ⟨cache, rfl, rfl⟩
  | cons block blocks ih =>
      obtain ⟨hheads, hdim⟩ := hshape block List.mem_cons_self
      have hnow : Fits cache block.attn.nHead block.attn.headDim layer handle
          (block.prefillRows xs).2.1.rows.length := by
        have hlen : (block.prefillRows xs).2.1.rows.length = xs.length := by
          simp [Gpt2Block.prefillRows, Gpt2Attention.toKv]
        rw [hheads, hdim, hlen]
        exact hfits layer (Nat.le_refl _) (by simp)
      obtain ⟨middle, hfirst, hstores, hcurrent'⟩ :=
        forwardBlocks_prefill_cons blocks hwf hcurrent hnow
      obtain ⟨cache', hrest, hstored⟩ := ih
        (fun other hother ↦ hshape other (List.mem_cons_of_mem _ hother)) (layer + 1)
        (block.prefillRows xs).1 middle hstores.confined.wf hcurrent' (by
          intro index hle hlt
          rw [hstores.confined.fits_iff, Gpt2Block.length_prefillRows]
          apply hfits index (by omega)
          rw [List.length_cons]
          omega)
      rw [hstores.stored_eq] at hrest hstored
      exact ⟨cache', hfirst.trans hrest, hstored⟩

theorem forwardBlocks_prefill_of_not_fits (blocks : List (Gpt2Block α))
    (hshape : ∀ block ∈ blocks, block.attn.nHead = heads ∧ block.attn.headDim = headDim)
    (layer : ℕ) (handle : KvHandle) (xs : List (Row α)) (cache : SlabKvCache (KvTensor α))
    (hwf : cache.Wf) (hcurrent : cache.IsCurrentHandle handle)
    (hfits : ¬ ∀ index, layer ≤ index → index < layer + blocks.length →
      Fits cache heads headDim index handle xs.length) :
    ∃ err, (forwardBlocks [handle] true layer blocks [xs] cache).1 = .error err := by
  induction blocks generalizing layer xs cache with
  | nil =>
      refine absurd ?_ hfits
      intro index hle hlt
      rw [List.length_nil] at hlt
      omega
  | cons block blocks ih =>
      obtain ⟨hheads, hdim⟩ := hshape block List.mem_cons_self
      have hlen : (block.prefillRows xs).2.1.rows.length = xs.length := by
        simp [Gpt2Block.prefillRows, Gpt2Attention.toKv]
      by_cases hnow : Fits cache block.attn.nHead block.attn.headDim layer handle
          (block.prefillRows xs).2.1.rows.length
      · obtain ⟨middle, hfirst, hstores, hcurrent'⟩ :=
          forwardBlocks_prefill_cons blocks hwf hcurrent hnow
        obtain ⟨err, hrest⟩ := ih
          (fun other hother ↦ hshape other (List.mem_cons_of_mem _ hother)) (layer + 1)
          (block.prefillRows xs).1 middle hstores.confined.wf hcurrent' (by
            intro hlater
            apply hfits
            intro index hle hlt
            rcases Nat.eq_or_lt_of_le hle with rfl | hgt
            · rwa [hheads, hdim, hlen] at hnow
            · rw [List.length_cons] at hlt
              have hfit := hlater index hgt (by omega)
              rwa [hstores.confined.fits_iff, Gpt2Block.length_prefillRows] at hfit)
        exact ⟨err, by rw [hfirst, hrest]⟩
      · obtain ⟨err, hwrite⟩ := KvM.write_of_not_fits (v := (block.prefillRows xs).2.2.rows) hnow
        have hfirst : block.forward [xs] layer [handle] true cache = (.error err, cache) := by
          rw [Gpt2Block.forward_prefill]
          exact KvM.bind_error hwrite
        unfold forwardBlocks
        exact ⟨err, by rw [KvM.bind_error hfirst]⟩

end Blocks

variable {model : Gpt2Model α} {cache : SlabKvCache (KvTensor α)}

theorem embed_one (tokens positions : List Token) :
    model.embed [tokens] [positions] = (do
      let tokenEmb ← model.wte.forward tokens
      let posEmb ← model.wpe.forward positions
      let xs ← broadcastAdd tokenEmb posEmb
      pure [xs]) := by
  unfold embed
  cases htokens : model.wte.forward tokens with
  | error err => simp [htokens, bind, Except.bind]
  | ok tokenEmb =>
      cases hpositions : model.wpe.forward positions with
      | error err => simp [htokens, hpositions, bind, Except.bind, pure, Except.pure]
      | ok posEmb => simp [htokens, hpositions, bind, Except.bind, pure, Except.pure]

theorem length_broadcastAdd {left right xs : List (Row α)} (hok : broadcastAdd left right = .ok xs)
    (hone : left.length = 1 → right.length = 1) : xs.length = left.length := by
  unfold broadcastAdd at hok
  split_ifs at hok with hlen
  · rw [← Except.ok.inj hok, List.length_zipWith, ← hlen, Nat.min_self]
  · split at hok
    · rw [← Except.ok.inj hok, List.length_map]
    · exact absurd (hone rfl).symm hlen
    · cases hok

/-- The rows of the prompt without its last token, as they reach the first block. -/
def promptRows (model : Gpt2Model α) (promptTokens : List Token) :
    Except ModelError (List (List (Row α))) :=
  model.embed [promptTokens.take (promptTokens.length - 1)]
    [positionIds (promptTokens.length - 1)]

/-- An embedded prompt has one row per token, and all its tokens are in the vocabulary. -/
theorem promptRows_eq_ok {promptTokens : List Token} {xs : List (List (Row α))}
    (hok : model.promptRows promptTokens = .ok xs) :
    (∀ token ∈ promptTokens.take (promptTokens.length - 1),
      token.toNat < model.config.vocabSize) ∧
    ∃ rows, xs = [rows] ∧ rows.length = promptTokens.length - 1 := by
  unfold promptRows at hok
  rw [embed_one] at hok
  have hlen : (promptTokens.take (promptTokens.length - 1)).length = promptTokens.length - 1 := by
    simp
  generalize promptTokens.take (promptTokens.length - 1) = tokens at hok hlen ⊢
  cases htokens : model.wte.forward tokens with
  | error err => simp [htokens, bind, Except.bind] at hok
  | ok tokenEmb =>
      cases hpositions : model.wpe.forward (positionIds (promptTokens.length - 1)) with
      | error err => simp [htokens, hpositions, bind, Except.bind] at hok
      | ok posEmb =>
          cases hadd : broadcastAdd tokenEmb posEmb with
          | error err => simp [htokens, hpositions, hadd, bind, Except.bind] at hok
          | ok rows =>
              simp only [htokens, hpositions, hadd, bind, Except.bind, pure, Except.pure,
                Except.ok.injEq] at hok
              obtain ⟨hrange, rfl⟩ := forward_eq_ok.mp htokens
              obtain ⟨-, rfl⟩ := forward_eq_ok.mp hpositions
              refine ⟨model.wte_length ▸ hrange, rows, hok.symm, ?_⟩
              rw [← hlen, ← List.length_map (rowOf model.wte)]
              apply length_broadcastAdd hadd
              intro hone
              rw [List.length_map, hlen] at hone
              rw [hone]
              rfl

/-- The prompt of a request can be prefilled: there is nothing to cache, or all but its last token
embed and fit at every layer. -/
def PrefillOk (model : Gpt2Model α) (cache : SlabKvCache (KvTensor α)) (promptTokens : List Token)
    (handle : KvHandle) : Prop :=
  promptTokens.length - 1 = 0 ∨
    (∃ xs, model.promptRows promptTokens = .ok xs) ∧
      ∀ layer < model.config.nLayer,
        Fits cache model.config.nHead model.headDim layer handle (promptTokens.length - 1)

/-- What a prefill stores for its sequence. -/
def prefillStore (model : Gpt2Model α) (promptTokens : List Token) (store : KvStore α) : KvStore α :=
  if promptTokens.length - 1 = 0 then store
  else
    match model.promptRows promptTokens with
    | .ok [xs] => (prefillBlocks 0 model.blocks store xs).2
    | _ => store

theorem confined_prefill (promptTokens : List Token) (handle : KvHandle) :
    KvM.Confined [handle] (model.prefill promptTokens handle) := by
  unfold prefill
  dsimp only
  split_ifs
  · exact KvM.confined_pure _
  · apply KvM.confined_bind (confined_forwardT _ _ _ _)
    intro logits
    exact KvM.confined_pure _

theorem prefill_of_ok {promptTokens : List Token} {handle : KvHandle} (hwf : cache.Wf)
    (hcurrent : cache.IsCurrentHandle handle) (hok : model.PrefillOk cache promptTokens handle) :
    ∃ cache', model.prefill promptTokens handle cache = (.ok (), cache') ∧
      cache'.stored handle = model.prefillStore promptTokens (cache.stored handle) := by
  unfold prefill prefillStore
  by_cases hcached : promptTokens.length - 1 = 0
  · rw [if_pos hcached, if_pos hcached]
    exact ⟨cache, rfl, rfl⟩
  rcases hok with hzero | ⟨⟨xs, hxs⟩, hfits⟩
  · exact absurd hzero hcached
  obtain ⟨-, rows, rfl, hlen⟩ := promptRows_eq_ok hxs
  obtain ⟨cache', hblocks, hstored⟩ := forwardBlocks_prefill_of_fits model.blocks
    model.blocks_shape 0 handle rows cache hwf hcurrent (by
      intro layer _ hlt
      rw [hlen]
      apply hfits
      rwa [Nat.zero_add, model.blocks_length] at hlt)
  rw [if_neg hcached, if_neg hcached, hxs]
  refine ⟨cache', ?_, hstored⟩
  unfold forwardT KvM.ofExcept
  simp only [bind_assoc, pure_bind]
  change (KvM.ofExcept (model.promptRows promptTokens) >>= _) cache = _
  unfold KvM.ofExcept
  rw [hxs, KvM.bind_ok rfl, KvM.bind_ok hblocks]
  rfl

theorem prefill_of_not_ok {promptTokens : List Token} {handle : KvHandle} (hwf : cache.Wf)
    (hcurrent : cache.IsCurrentHandle handle) (hbad : ¬ model.PrefillOk cache promptTokens handle) :
    ∃ err, (model.prefill promptTokens handle cache).1 = .error err := by
  have hcached : promptTokens.length - 1 ≠ 0 := fun hzero ↦ hbad (Or.inl hzero)
  unfold prefill forwardT
  rw [if_neg hcached]
  simp only [bind_assoc, pure_bind]
  change ∃ err, ((KvM.ofExcept (model.promptRows promptTokens) >>= _) cache).1 = .error err
  unfold KvM.ofExcept
  cases hxs : model.promptRows promptTokens with
  | error err => exact ⟨err, by rw [KvM.bind_error rfl]⟩
  | ok xs =>
      obtain ⟨-, rows, rfl, hlen⟩ := promptRows_eq_ok hxs
      obtain ⟨err, hblocks⟩ := forwardBlocks_prefill_of_not_fits model.blocks model.blocks_shape 0
        handle rows cache hwf hcurrent (by
          intro hfits
          refine hbad (Or.inr ⟨⟨_, hxs⟩, fun layer hlayer ↦ ?_⟩)
          have hfit := hfits layer (Nat.zero_le _) (by rwa [Nat.zero_add, model.blocks_length])
          rwa [hlen] at hfit)
      exact ⟨err, by rw [KvM.bind_ok rfl, KvM.bind_error (Prod.ext hblocks rfl)]⟩

end Gpt2Model

end HotBatch
