import Mathlib.Analysis.SpecialFunctions.Trigonometric.Basic
import HotBatch.Core.KvRefinement
import HotBatch.Core.PrivatePass

/-!
# Incremental decoding computes the full pass

With exact arithmetic the logits of a decode step are those of one causal pass over the whole text.
The invariant is that every layer's cached keys and values are the ones that the full pass over the
tokens so far computes at that layer. Its step is a statement about one block: a causal pass over
one more row leaves the earlier rows as they were and appends the row that the decode step computes
from the cache. This is where masked columns have to weigh exactly zero.
-/

namespace HotBatch

variable {α : Type} [Kernels α]

/-! ## Masked columns weigh nothing -/

section Masked

variable [ExactScalar α]

theorem sum_append_zero (values : List α) : Scalar.sum (values ++ [0]) = Scalar.sum values := by
  unfold Scalar.sum
  rw [List.foldl_append]
  exact ExactScalar.add_zero _

/-- A masked score at the end of a row gets weight zero and changes no other weight. -/
theorem softmax_append_masked (scores : Scores α) :
    softmax (scores ++ [none]) = softmax scores ++ [0] := by
  have hbest : (scores ++ [none]).foldl maxScore none = scores.foldl maxScore none := by
    rw [List.foldl_append]
    cases scores.foldl maxScore none <;> rfl
  unfold softmax
  simp only [hbest, List.map_append, List.map_cons, List.map_nil, scoreWeight]
  rw [sum_append_zero, ExactScalar.zero_div]

theorem mix_append_zero (attn : Gpt2Attention α) (weights : List α) (values : List (Row α))
    (value : Row α) (hlen : weights.length = values.length) :
    attn.mix (weights ++ [0]) (values ++ [value]) = attn.mix weights values := by
  unfold Gpt2Attention.mix
  apply List.map_congr_left
  intro column _
  rw [List.zipWith_append hlen, List.zipWith_cons_cons, List.zipWith_nil_left,
    ExactScalar.zero_mul, sum_append_zero]

omit [Kernels α] [ExactScalar α] in
theorem maskedFill_append (mask : ℕ → Bool) (scores : List α) (score : α) :
    maskedFill mask (scores ++ [score]) =
      maskedFill mask scores ++ [if mask scores.length then none else some score] := by
  simp [maskedFill, List.zipIdx_append]

omit [ExactScalar α] in
@[simp]
theorem length_softmax (scores : Scores α) : (softmax scores).length = scores.length := by
  simp [softmax]

omit [Kernels α] [ExactScalar α] in
@[simp]
theorem length_maskedFill (mask : ℕ → Bool) (scores : List α) :
    (maskedFill mask scores).length = scores.length := by
  simp [maskedFill]

/-- A masked column can be left out of the attention of a query. -/
theorem context_append_masked (attn : Gpt2Attention α) (mask : ℕ → Bool) (query : Row α)
    (keys values : List (Row α)) (key value : Row α) (hlen : keys.length = values.length)
    (hmask : mask keys.length = true) :
    attn.context mask query (keys ++ [key]) (values ++ [value]) =
      attn.context mask query keys values := by
  unfold Gpt2Attention.context
  congr 1
  funext head
  have hscores : (attn.scores (attn.headPart head query) (keys.map (attn.headPart head))).length =
      keys.length := by
    simp [Gpt2Attention.scores]
  simp only [List.map_append, List.map_cons, List.map_nil, Gpt2Attention.scores]
  simp only [Gpt2Attention.scores] at hscores
  rw [maskedFill_append, hscores, hmask, if_pos rfl, softmax_append_masked, mix_append_zero]
  rw [length_softmax, length_maskedFill, hscores, hlen, List.length_map]

end Masked

/-- A mask that covers none of the columns is no mask. -/
theorem context_of_unmasked (attn : Gpt2Attention α) (mask : ℕ → Bool) (query : Row α)
    (keys values : List (Row α)) (hmask : ∀ column < keys.length, mask column = false) :
    attn.context mask query keys values = attn.context (fun _ ↦ false) query keys values := by
  unfold Gpt2Attention.context
  congr 1
  funext head
  congr 2
  unfold maskedFill
  apply List.map_congr_left
  rintro ⟨score, column⟩ hmem
  have hlt : column < keys.length := by
    simpa [Gpt2Attention.scores] using (List.mem_zipIdx' hmem).1
  simp [hmask column hlt]

/-! ## One block -/

section Block

variable [ExactScalar α]

/-- One more position in a causal pass: the contexts before it stay, and its own attends over all
positions without a mask. -/
theorem causalContexts_append (attn : Gpt2Attention α) (qkv : List (Qkv α)) (last : Qkv α) :
    attn.causalContexts (qkv ++ [last]) = attn.causalContexts qkv ++
      [attn.context (fun _ ↦ false) last.query (qkv.map Qkv.key ++ [last.key])
        (qkv.map Qkv.value ++ [last.value])] := by
  unfold Gpt2Attention.causalContexts
  rw [List.zipIdx_append, List.map_append]
  congr 1
  · apply List.map_congr_left
    rintro ⟨position, index⟩ hmem
    have hlt : index < qkv.length := by
      simpa using (List.mem_zipIdx' hmem).1
    simp only [List.map_append, List.map_cons, List.map_nil]
    apply context_append_masked
    · simp
    · simpa [causalMask] using hlt
  · simp only [List.zipIdx_cons, List.zipIdx_nil, List.map_cons, List.map_nil, List.map_append,
      Nat.zero_add]
    congr 1
    apply context_of_unmasked
    intro column hlt
    rw [List.length_append, List.length_map, List.length_singleton] at hlt
    exact decide_eq_false (by omega)

/-- The cached entry of a layer is the one that a causal pass over `xs` leaves there. -/
def CachesRows (block : Gpt2Block α) (entry : Option (KvTensor α × KvTensor α))
    (xs : List (Row α)) : Prop :=
  entry = some (block.prefillRows xs).2 ∨ entry = none ∧ xs = []

/-- **One block.** A causal pass over one more row is the pass over the rows before it together
with one decode step on what that pass cached. -/
theorem prefillRows_append (block : Gpt2Block α) {entry : Option (KvTensor α × KvTensor α)}
    {xs : List (Row α)} (hcaches : CachesRows block entry xs) (x : Row α) :
    block.prefillRows (xs ++ [x]) =
      ((block.prefillRows xs).1 ++ [(block.decodeRow entry x).1], (block.decodeRow entry x).2) := by
  have hextend : ∀ qkv : Qkv α, block.attn.extend entry qkv =
      (block.attn.toKv ((xs.map fun x ↦ block.attn.project (block.ln1.forward x)).map Qkv.key ++
          [qkv.key]),
        block.attn.toKv ((xs.map fun x ↦ block.attn.project (block.ln1.forward x)).map Qkv.value ++
          [qkv.value])) := by
    intro qkv
    rcases hcaches with rfl | ⟨rfl, rfl⟩ <;> rfl
  have hlen : ((block.attn.causalContexts
      (xs.map fun x ↦ block.attn.project (block.ln1.forward x))).map
        block.attn.cProj.forward).length = xs.length := by
    simp [Gpt2Attention.causalContexts]
  unfold Gpt2Block.prefillRows Gpt2Block.decodeRow Gpt2Attention.decodeContext
  simp only [hextend, List.map_append, List.map_cons, List.map_nil, causalContexts_append]
  rw [List.zipWith_append hlen]
  rfl

end Block

/-! ## All blocks -/

namespace Gpt2Model

/-- The hidden rows of a causal pass, without what it stores. -/
def fullRows : List (Gpt2Block α) → List (Row α) → List (Row α)
  | [], xs => xs
  | block :: blocks, xs => fullRows blocks (block.prefillRows xs).1

/-- Every layer from `layer` on caches what a causal pass over `xs` stores there. -/
def Caches : ℕ → List (Gpt2Block α) → KvStore α → List (Row α) → Prop
  | _, [], _, _ => True
  | layer, block :: blocks, store, xs =>
      CachesRows block (store layer) xs ∧
        Caches (layer + 1) blocks store (block.prefillRows xs).1

theorem prefillBlocks_fst (layer : ℕ) (blocks : List (Gpt2Block α)) (store : KvStore α)
    (xs : List (Row α)) : (prefillBlocks layer blocks store xs).1 = fullRows blocks xs := by
  induction blocks generalizing layer store xs with
  | nil => rfl
  | cons block blocks ih => exact ih _ _ _

/-- Only the layers from `layer` on matter. -/
theorem caches_congr {blocks : List (Gpt2Block α)} {layer : ℕ} {store other : KvStore α}
    {xs : List (Row α)} (hsame : ∀ index, layer ≤ index → store index = other index)
    (hcaches : Caches layer blocks store xs) : Caches layer blocks other xs := by
  induction blocks generalizing layer xs with
  | nil => trivial
  | cons block blocks ih =>
      obtain ⟨hnow, hlater⟩ := hcaches
      refine ⟨hsame layer (Nat.le_refl _) ▸ hnow, ih ?_ hlater⟩
      intro index hle
      exact hsame index (Nat.le_of_succ_le hle)

theorem decodeBlocks_of_lt {blocks : List (Gpt2Block α)} {layer index : ℕ} (hlt : index < layer)
    (store : KvStore α) (x : Row α) :
    (decodeBlocks layer blocks store x).2 index = store index := by
  induction blocks generalizing layer store x with
  | nil => rfl
  | cons block blocks ih =>
      rw [decodeBlocks, ih (Nat.lt_succ_of_lt hlt), Function.update_of_ne (Nat.ne_of_lt hlt)]

theorem prefillBlocks_of_lt {blocks : List (Gpt2Block α)} {layer index : ℕ} (hlt : index < layer)
    (store : KvStore α) (xs : List (Row α)) :
    (prefillBlocks layer blocks store xs).2 index = store index := by
  induction blocks generalizing layer store xs with
  | nil => rfl
  | cons block blocks ih =>
      rw [prefillBlocks, ih (Nat.lt_succ_of_lt hlt), Function.update_of_ne (Nat.ne_of_lt hlt)]

/-- A prefill caches its own rows. -/
theorem caches_prefillBlocks (layer : ℕ) (blocks : List (Gpt2Block α)) (store : KvStore α)
    (xs : List (Row α)) : Caches layer blocks (prefillBlocks layer blocks store xs).2 xs := by
  induction blocks generalizing layer store xs with
  | nil => trivial
  | cons block blocks ih =>
      refine ⟨Or.inl ?_, ih _ _ _⟩
      rw [prefillBlocks, prefillBlocks_of_lt (Nat.lt_succ_self layer), Function.update_self]

/-- Nothing cached is what a pass over no rows caches. -/
theorem caches_nil (layer : ℕ) (blocks : List (Gpt2Block α)) :
    Caches layer blocks (fun _ ↦ none) ([] : List (Row α)) := by
  induction blocks generalizing layer with
  | nil => trivial
  | cons block blocks ih => exact ⟨Or.inr ⟨rfl, rfl⟩, ih (layer + 1)⟩

variable [ExactScalar α]

/-- **All blocks.** A decode step on the caches of `xs` computes the new row of the causal pass over
`xs ++ [x]`, leaves the caches of that pass, and the pass keeps its earlier rows. -/
theorem decodeBlocks_spec (blocks : List (Gpt2Block α)) (layer : ℕ) (store : KvStore α)
    (xs : List (Row α)) (hcaches : Caches layer blocks store xs) (x : Row α) :
    fullRows blocks (xs ++ [x]) =
        fullRows blocks xs ++ [(decodeBlocks layer blocks store x).1] ∧
      Caches layer blocks (decodeBlocks layer blocks store x).2 (xs ++ [x]) := by
  induction blocks generalizing layer store xs x with
  | nil => exact ⟨rfl, trivial⟩
  | cons block blocks ih =>
      obtain ⟨hnow, hlater⟩ := hcaches
      have hstep := prefillRows_append block hnow x
      have hlater' : Caches (layer + 1) blocks
          (Function.update store layer (some (block.decodeRow (store layer) x).2))
          (block.prefillRows xs).1 := by
        refine caches_congr ?_ hlater
        intro index hle
        rw [Function.update_of_ne (by omega)]
      obtain ⟨hrows, hcached⟩ := ih (layer + 1) _ _ hlater' (block.decodeRow (store layer) x).1
      have hfst : (block.prefillRows (xs ++ [x])).1 =
          (block.prefillRows xs).1 ++ [(block.decodeRow (store layer) x).1] := by rw [hstep]
      refine ⟨?_, ?_, ?_⟩
      · rw [fullRows, hfst]
        exact hrows
      · refine Or.inl ?_
        rw [decodeBlocks, decodeBlocks_of_lt (Nat.lt_succ_self layer), Function.update_self, hstep]
      · rw [hfst]
        exact hcached

end Gpt2Model

/-! ## Decoding a sequence -/

/-- Prompt and generated tokens. -/
def Sequence.text (seq : Sequence α) : List Token := seq.promptTokens ++ seq.generatedTokens

omit [Kernels α] in
/-- The token fed to a decode step is the last one of the text, and its position the last one. -/
theorem Sequence.text_eq (seq : Sequence α) (hprompt : seq.promptTokens ≠ []) :
    seq.text = seq.text.dropLast ++ [seq.lastToken] := by
  have hne : seq.text ≠ [] := by simp [text, hprompt]
  have hlast : seq.text.getLast hne = seq.lastToken := by
    rw [← Option.some_inj, ← List.getLast?_eq_getLast_of_ne_nil hne]
    unfold text lastToken
    rw [List.getLast?_append]
    cases hgenerated : seq.generatedTokens.getLast? with
    | some token => rfl
    | none =>
        rw [List.getLast?_eq_getLast_of_ne_nil hprompt]
        rfl
  rw [← hlast, List.dropLast_append_getLast hne]

omit [Kernels α] in
theorem Sequence.decodePosition_eq (seq : Sequence α) (hprompt : seq.promptTokens ≠ [])
    (hsize : seq.text.length < Usize.size) : seq.decodePosition = seq.text.dropLast.length := by
  have hpos := List.length_pos_iff.mpr hprompt
  have hlen : seq.text.length = seq.promptTokens.length + seq.generatedTokens.length :=
    List.length_append
  unfold decodePosition
  rw [Usize.saturatingAdd_eq_add (by omega), List.length_dropLast]
  omega

namespace Gpt2Model

variable {model : Gpt2Model α} {cache : SlabKvCache (KvTensor α)} {seq : Sequence α}

/-- The rows of a text, embedded at positions `0, 1, …`. -/
def textRows (model : Gpt2Model α) (text : List Token) : List (Row α) :=
  text.zipIdx.map fun (token, position) ↦ model.embedRow token (UInt32.ofNat position)

theorem textRows_append (text : List Token) (token : Token) :
    model.textRows (text ++ [token]) =
      model.textRows text ++ [model.embedRow token (UInt32.ofNat text.length)] := by
  simp [textRows, List.zipIdx_append]

@[simp]
theorem length_textRows (text : List Token) : (model.textRows text).length = text.length := by
  simp [textRows]

/-- A text in the vocabulary that is short enough for the position table embeds. -/
theorem embed_text {text : List Token} (hvocab : ∀ token ∈ text, token.toNat < model.config.vocabSize)
    (hpositions : text.length ≤ model.config.maxPositions) (hids : text.length < 2 ^ 32) :
    model.embed [text] [positionIds text.length] = .ok [model.textRows text] := by
  have hnat : ∀ position < text.length, (UInt32.ofNat position).toNat = position := by
    intro position hlt
    exact UInt32.toNat_ofNat_of_lt' (hlt.trans hids)
  have htokens : model.wte.forward text = .ok (text.map (rowOf model.wte)) :=
    forward_eq_ok.mpr ⟨by rwa [model.wte_length], rfl⟩
  have hlen : (positionIds text.length).length = text.length := by
    rw [positionIds, List.length_map, List.length_range]
    exact UInt32.toNat_ofNat_of_lt' hids
  have hpositionRange : ∀ token ∈ positionIds text.length, token.toNat < model.wpe.rows.length := by
    intro token htoken
    obtain ⟨position, hposition, rfl⟩ := List.mem_map.mp htoken
    rw [List.mem_range, UInt32.toNat_ofNat_of_lt' hids] at hposition
    rw [hnat position hposition, model.wpe_length]
    exact hposition.trans_le hpositions
  have hpos : model.wpe.forward (positionIds text.length) =
      .ok ((positionIds text.length).map (rowOf model.wpe)) :=
    forward_eq_ok.mpr ⟨hpositionRange, rfl⟩
  have hadd : broadcastAdd (text.map (rowOf model.wte))
      ((positionIds text.length).map (rowOf model.wpe)) = .ok (model.textRows text) := by
    unfold broadcastAdd
    rw [if_pos (by rw [List.length_map, List.length_map, hlen])]
    congr 1
    apply List.ext_getElem
    · simp [hlen]
    · intro index hleft hright
      simp [textRows, embedRow, positionIds]
  rw [embed_one, htokens, hpos]
  simp only [bind, Except.bind, hadd, pure, Except.pure]

theorem storedTokens_of_caches {blocks : List (Gpt2Block α)} {layer : ℕ} {store : KvStore α}
    {xs : List (Row α)} (hcaches : Caches layer blocks store xs) {index : ℕ} (hle : layer ≤ index)
    (hlt : index < layer + blocks.length) : storedTokens store index = xs.length := by
  induction blocks generalizing layer xs with
  | nil =>
      rw [List.length_nil] at hlt
      omega
  | cons block blocks ih =>
      obtain ⟨hnow, hlater⟩ := hcaches
      rcases Nat.eq_or_lt_of_le hle with rfl | hgt
      · unfold storedTokens
        rcases hnow with hentry | ⟨hentry, rfl⟩
        · rw [hentry]
          simp [Gpt2Block.prefillRows, Gpt2Attention.toKv]
        · rw [hentry]
          rfl
      · rw [List.length_cons] at hlt
        rw [ih hlater hgt (by omega), Gpt2Block.length_prefillRows]

/-- Between two decode steps: every layer caches what the full pass over the text so far, without
its last token, computes there. -/
structure Decoding (model : Gpt2Model α) (cache : SlabKvCache (KvTensor α)) (seq : Sequence α) :
    Prop where
  wf : cache.Wf
  current : cache.IsCurrentHandle seq.kvHandle
  layers_le : model.config.nLayer ≤ cache.numLayers
  heads_eq : model.config.nHead = cache.nHeads
  headDim_eq : model.headDim = cache.headDim
  prompt_ne : seq.promptTokens ≠ []
  caches : Caches 0 model.blocks (cache.stored seq.kvHandle) (model.textRows seq.text.dropLast)

/-- The next token of a text still fits: it is in the vocabulary, and the text is within the slot,
the position table and the position ids. -/
structure TextFits (model : Gpt2Model α) (handle : KvHandle) (text : List Token) : Prop where
  vocab : ∀ token ∈ text, token.toNat < model.config.vocabSize
  capacity : text.length ≤ handle.capacityTokens
  positions : text.length ≤ model.config.maxPositions
  ids : text.length < 2 ^ 32

omit [Kernels α] in
theorem TextFits.of_prefix {handle : KvHandle} {text longer : List Token}
    (hfits : model.TextFits handle longer) (hstarts : text <+: longer) :
    model.TextFits handle text where
  vocab := fun token htoken ↦ hfits.vocab token (hstarts.subset htoken)
  capacity := hstarts.length_le.trans hfits.capacity
  positions := hstarts.length_le.trans hfits.positions
  ids := hstarts.length_le.trans_lt hfits.ids

theorem Decoding.rowOk (hdecoding : model.Decoding cache seq)
    (hfits : model.TextFits seq.kvHandle seq.text) : model.RowOk cache seq.decodeInput := by
  have htext := seq.text_eq hdecoding.prompt_ne
  have hlen : seq.text.length = seq.text.dropLast.length + 1 := by
    conv_lhs => rw [htext]
    simp
  have hposition := seq.decodePosition_eq hdecoding.prompt_ne
    (hfits.ids.trans (by unfold Usize.size; norm_num))
  constructor
  · exact hfits.vocab _ (htext ▸ List.mem_append_right _ (List.mem_singleton_self _))
  · change (UInt32.ofNat seq.decodePosition).toNat < _
    have hids := hfits.ids
    have hpositions := hfits.positions
    rw [hposition, UInt32.toNat_ofNat_of_lt' (by unfold UInt32.size; omega)]
    omega
  · intro layer hle hlt
    rw [Nat.zero_add] at hlt
    have htokens := storedTokens_of_caches hdecoding.caches hle
      (by rwa [Nat.zero_add, model.blocks_length])
    rw [length_textRows] at htokens
    refine ⟨hlt.trans_le hdecoding.layers_le, hdecoding.heads_eq, hdecoding.headDim_eq, ?_⟩
    change storedTokens (cache.stored seq.kvHandle) layer + 1 ≤ _
    rw [htokens, ← hlen]
    exact hfits.capacity

variable [ExactScalar α]

/-- **One decode step.** It returns the last logits of the full pass over the text and leaves the
caches ready for whatever token comes next. -/
theorem Decoding.step (hdecoding : model.Decoding cache seq)
    (hfits : model.TextFits seq.kvHandle seq.text) :
    ∃ logits cache', model.forward [seq.decodeInput] cache = (.ok [logits], cache') ∧
      ((fullRows model.blocks (model.textRows seq.text)).map model.logits).getLast? = some logits ∧
      ∀ token, model.Decoding cache' (seq.push token) := by
  obtain ⟨cache', hrun, hstored⟩ := forward_of_rowsOk [seq.decodeInput] hdecoding.wf
    (List.nodup_singleton _) (List.forall_mem_singleton.mpr hdecoding.current)
    (List.forall_mem_singleton.mpr (hdecoding.rowOk hfits))
  have hconfined := model.confined_forward [seq.decodeInput] cache hdecoding.wf
  rw [hrun] at hconfined
  have htext := seq.text_eq hdecoding.prompt_ne
  have hposition := seq.decodePosition_eq hdecoding.prompt_ne
    (hfits.ids.trans (by unfold Usize.size; norm_num))
  have hrows : model.textRows seq.text = model.textRows seq.text.dropLast ++
      [model.embedRow seq.lastToken (UInt32.ofNat seq.decodePosition)] := by
    conv_lhs => rw [htext]
    rw [textRows_append, hposition]
  obtain ⟨hfull, hcached⟩ := decodeBlocks_spec model.blocks 0 _ _ hdecoding.caches
    (model.embedRow seq.lastToken (UInt32.ofNat seq.decodePosition))
  rw [← hrows] at hfull hcached
  refine ⟨_, cache', hrun, ?_, ?_⟩
  · rw [hfull, List.map_append, List.map_cons, List.map_nil, List.getLast?_concat]
    rfl
  · intro token
    obtain ⟨hlayers, hheads, hdim, -, -⟩ := hconfined.shape_eq
    refine ⟨hconfined.wf, (hconfined.isCurrentHandle_iff _).mpr hdecoding.current,
      hlayers ▸ hdecoding.layers_le, hheads ▸ hdecoding.heads_eq, hdim ▸ hdecoding.headDim_eq,
      hdecoding.prompt_ne, ?_⟩
    have hpushed : (seq.push token).text.dropLast = seq.text := by
      simp [Sequence.text, Sequence.push, ← List.append_assoc]
    have hsame := hstored seq.decodeInput (List.mem_singleton_self _)
    rw [hpushed]
    change Caches 0 model.blocks (cache'.stored seq.kvHandle) _
    rw [show cache'.stored seq.kvHandle = _ from hsame]
    exact hcached

/-- Decode steps that feed the given tokens one after the other, and the logits of the last one. -/
def decodeSteps (model : Gpt2Model α) (seq : Sequence α) : List Token → KvM α (List (LogitRow α))
  | [] => model.forward [seq.decodeInput]
  | token :: generated => do
      let _ ← model.forward [seq.decodeInput]
      decodeSteps model (seq.push token) generated

/-- Prefill of the prompt, one decode step for each generated token, and the step after them. -/
def incremental (model : Gpt2Model α) (seq : Sequence α) (generated : List Token) :
    KvM α (List (LogitRow α)) := do
  model.prefill seq.promptTokens seq.kvHandle
  model.decodeSteps seq generated

theorem Decoding.steps (generated : List Token) (seq : Sequence α)
    (cache : SlabKvCache (KvTensor α)) (hdecoding : model.Decoding cache seq)
    (hfits : model.TextFits seq.kvHandle (seq.text ++ generated)) :
    ∃ logits cache', model.decodeSteps seq generated cache = (.ok [logits], cache') ∧
      ((fullRows model.blocks (model.textRows (seq.text ++ generated))).map
        model.logits).getLast? = some logits := by
  induction generated generalizing seq cache with
  | nil =>
      rw [List.append_nil] at hfits ⊢
      obtain ⟨logits, cache', hrun, hlast, -⟩ := hdecoding.step hfits
      exact ⟨logits, cache', hrun, hlast⟩
  | cons token generated ih =>
      obtain ⟨now, middle, hrun, -, hnext⟩ :=
        hdecoding.step (hfits.of_prefix (List.prefix_append _ _))
      have htext : (seq.push token).text ++ generated = seq.text ++ token :: generated := by
        simp [Sequence.text, Sequence.push]
      obtain ⟨logits, cache', hrest, hlast⟩ := ih (seq.push token) middle (hnext token)
        (htext ▸ hfits)
      rw [htext] at hlast
      refine ⟨logits, cache', ?_, hlast⟩
      unfold decodeSteps
      rw [KvM.bind_ok hrun]
      exact hrest

omit [ExactScalar α] in
/-- A prefill through a fresh handle starts a decoding. -/
theorem decoding_of_prefill (seq : Sequence α) {cache : SlabKvCache (KvTensor α)} (hwf : cache.Wf)
    (hcurrent : cache.IsCurrentHandle seq.kvHandle)
    (hfresh : cache.stored seq.kvHandle = fun _ ↦ none)
    (hshape : cache.numLayers = model.config.nLayer ∧ cache.nHeads = model.config.nHead ∧
      cache.headDim = model.headDim)
    (hprompt : seq.promptTokens ≠ []) (hgenerated : seq.generatedTokens = [])
    (hfits : model.TextFits seq.kvHandle seq.promptTokens) :
    ∃ cache', model.prefill seq.promptTokens seq.kvHandle cache = (.ok (), cache') ∧
      model.Decoding cache' seq := by
  have htext : seq.text.dropLast = seq.promptTokens.take (seq.promptTokens.length - 1) := by
    rw [Sequence.text, hgenerated, List.append_nil, List.dropLast_eq_take]
  have hinit : model.TextFits seq.kvHandle seq.text.dropLast :=
    hfits.of_prefix (htext ▸ List.take_prefix _ _)
  have hlen : seq.text.dropLast.length = seq.promptTokens.length - 1 := by
    rw [htext, List.length_take]
    omega
  have hrows : model.promptRows seq.promptTokens = .ok [model.textRows seq.text.dropLast] := by
    unfold promptRows
    rw [← htext, ← hlen]
    exact embed_text hinit.vocab hinit.positions hinit.ids
  have hok : model.PrefillOk cache seq.promptTokens seq.kvHandle := by
    refine Or.inr ⟨⟨_, hrows⟩, fun layer hlayer ↦ ⟨hshape.1 ▸ hlayer, hshape.2.1.symm,
      hshape.2.2.symm, ?_⟩⟩
    rw [← hlen]
    exact hinit.capacity
  obtain ⟨cache', hrun, hstored⟩ := prefill_of_ok hwf hcurrent hok
  have hconfined := model.confined_prefill seq.promptTokens seq.kvHandle cache hwf
  rw [hrun] at hconfined
  obtain ⟨hlayers, hheads, hdim, -, -⟩ := hconfined.shape_eq
  refine ⟨cache', hrun, hconfined.wf, (hconfined.isCurrentHandle_iff _).mpr hcurrent,
    (hlayers.trans hshape.1).ge, (hheads.trans hshape.2.1).symm, (hdim.trans hshape.2.2).symm,
    hprompt, ?_⟩
  rw [hstored, hfresh]
  unfold prefillStore
  split_ifs with hcached
  · -- A prompt of one token: nothing is written, and nothing precedes it in the text.
    rw [htext, hcached, List.take_zero]
    exact caches_nil 0 model.blocks
  · rw [hrows]
    exact caches_prefillBlocks 0 model.blocks _ _

omit [ExactScalar α] in
/-- The causal pass over a whole text. -/
theorem forwardT_text {cache : SlabKvCache (KvTensor α)} {handle : KvHandle} {text : List Token}
    (hwf : cache.Wf) (hcurrent : cache.IsCurrentHandle handle)
    (hshape : cache.numLayers = model.config.nLayer ∧ cache.nHeads = model.config.nHead ∧
      cache.headDim = model.headDim)
    (hfits : model.TextFits handle text) :
    (model.forwardT [text] [positionIds text.length] [handle] true cache).1 =
      .ok [(fullRows model.blocks (model.textRows text)).map model.logits] := by
  obtain ⟨cache', hblocks, -⟩ := forwardBlocks_prefill_of_fits model.blocks model.blocks_shape 0
    handle (model.textRows text) cache hwf hcurrent (by
      intro layer _ hlt
      rw [Nat.zero_add, model.blocks_length] at hlt
      refine ⟨hshape.1 ▸ hlt, hshape.2.1.symm, hshape.2.2.symm, ?_⟩
      rw [length_textRows]
      exact hfits.capacity)
  unfold forwardT KvM.ofExcept
  rw [embed_text hfits.vocab hfits.positions hfits.ids, KvM.bind_ok rfl, KvM.bind_ok hblocks,
    prefillBlocks_fst]
  rfl

/-- **Incremental decoding equals the full pass.** In any cache reached from a new one, for a request
admitted to it and any generated tokens that fit: prefill and decode steps end with exactly the
logits that one causal pass over prompt and generated tokens has at its last position. -/
theorem incremental_eq_full (model : Gpt2Model α) {maxSeqs maxSeqLen : ℕ}
    {events : List (KvEvent (KvTensor α))} {before cache : SlabKvCache (KvTensor α)}
    (hreached : KvHistory.Run
      (.new maxSeqs maxSeqLen model.config.nLayer model.config.nHead model.headDim) events before)
    {req : GenerationRequest α} {seq : Sequence α} (hnew : Sequence.new req before = (.ok seq, cache))
    (hprompt : req.promptTokens ≠ []) (generated : List Token)
    (hfits : model.TextFits seq.kvHandle (req.promptTokens ++ generated)) :
    ∃ logits full,
      (model.incremental seq generated cache).1 = .ok [logits] ∧
      (model.forwardT [req.promptTokens ++ generated]
        [positionIds (req.promptTokens ++ generated).length] [seq.kvHandle] true cache).1 =
          .ok [full] ∧
      full.getLast? = some logits := by
  obtain ⟨handle, hallocate, rfl⟩ : ∃ handle,
      before.allocate req.promptLen req.maxNewTokens = (.ok handle, cache) ∧
        Sequence.ofRequest req handle = seq := by
    unfold Sequence.new at hnew
    split at hnew
    · rename_i handle after hallocate
      obtain ⟨hseq, rfl⟩ := Prod.mk.inj hnew
      exact ⟨handle, hallocate, Except.ok.inj hseq⟩
    · cases hnew
  have hbefore := hreached.wf
  have hwf := SlabKvCache.wf_allocate hbefore hallocate
  have hcurrent : cache.IsCurrentHandle handle :=
    (SlabKvCache.isCurrentHandle_allocate hbefore hallocate handle).mpr (Or.inl rfl)
  have hfresh : cache.stored handle = fun _ ↦ none := by
    funext layer
    rw [SlabKvCache.stored_allocate hbefore hallocate, if_pos rfl]
  have hshape : cache.numLayers = model.config.nLayer ∧ cache.nHeads = model.config.nHead ∧
      cache.headDim = model.headDim := by
    obtain ⟨hlayers, hheads, hdim⟩ := hreached.shape
    obtain ⟨-, -, rest, -, -, rfl⟩ := SlabKvCache.allocate_eq_ok hallocate
    exact ⟨hlayers, hheads, hdim⟩
  obtain ⟨ready, hprefill, hdecoding⟩ := decoding_of_prefill (Sequence.ofRequest req handle)
    hwf hcurrent hfresh hshape hprompt rfl (hfits.of_prefix (List.prefix_append _ _))
  have htext : (Sequence.ofRequest req handle).text ++ generated = req.promptTokens ++ generated := by
    simp [Sequence.text, Sequence.ofRequest]
  obtain ⟨logits, after, hsteps, hlast⟩ := hdecoding.steps generated _ _ (htext ▸ hfits)
  rw [htext] at hlast
  refine ⟨logits, _, ?_, forwardT_text hwf hcurrent hshape hfits, hlast⟩
  unfold incremental
  rw [KvM.bind_ok hprefill, hsteps]

end Gpt2Model

/-! ## Exact real arithmetic -/

open Classical in
noncomputable instance realScalar : Scalar ℝ where
  ofScientific := OfScientific.ofScientific
  le left right := decide (left ≤ right)
  lt left right := decide (left < right)
  totalLe left right := decide (left ≤ right)
  aboveNegInfinity _ := true
  exp := Real.exp

/-- The kernels over the reals: layer norm with its learned scale and shift, and gelu in its `tanh`
form. -/
noncomputable instance realKernels : Kernels ℝ where
  Double := ℝ
  doubleScalar := realScalar
  widen := id
  epsilon := 2 ^ (-23 : ℤ)
  layerNorm weight bias eps row :=
    let mean : ℝ := row.sum / row.length
    let variance : ℝ := (row.map fun x : ℝ ↦ (x - mean) ^ 2).sum / row.length
    let normed := row.map fun x ↦ (x - mean) / √(variance + eps)
    List.zipWith (· + ·) (List.zipWith (· * ·) normed weight) bias
  gelu x := x / 2 * (1 + Real.tanh (√(2 / Real.pi) * (x + 0.044715 * x ^ 3)))
  indexError index size := s!"index {index} is out of range for a table of {size}"
  shapeError left right := s!"shape mismatch: {left} and {right}"

instance : ExactScalar ℝ where
  add_zero := add_zero
  zero_mul := zero_mul
  zero_div := zero_div

namespace Gpt2Model

/-- A model of one layer and one head over a vocabulary of two tokens. -/
noncomputable def tinyModel : Gpt2Model ℝ where
  config := ⟨2, some 4, none, 1, 1, 1⟩
  headDim := 1
  wte := ⟨[[1], [2]]⟩
  wpe := ⟨[[0], [1], [2], [3]]⟩
  blocks := [{
    ln1 := ⟨[1], [0], 1⟩
    attn := ⟨⟨[[1, 2, 3]], [0, 0, 0], .inOut, 3⟩, ⟨[[1]], [0], .inOut, 1⟩, 1, 1, 1⟩
    ln2 := ⟨[1], [0], 1⟩
    mlp := ⟨⟨[[1, 1, 1, 1]], [0, 0, 0, 0], .inOut, 4⟩, ⟨[[1], [1], [1], [1]], [0], .inOut, 1⟩⟩ }]
  lnF := ⟨[1], [0], 1⟩
  vocab_pos := by decide
  layers_pos := by decide
  positions_pos := by decide
  wte_length := rfl
  wpe_length := rfl
  blocks_length := rfl
  blocks_shape := by simp

noncomputable def tinyRequest : GenerationRequest ℝ where
  id := "tiny"
  promptTokens := [0, 1]
  samplerConfig := ⟨0, 1, none, [], 2, 50256, 0⟩
  client := 0
  priority := 0
  promptHash := 0

/-- The cache of `tinyModel` once `tinyRequest` has been admitted. -/
def tinyCache : SlabKvCache (KvTensor ℝ) :=
  ((SlabKvCache.new 1 4 1 1 1).allocate 2 2).2

/-- The decode step after one generated token, against the full pass over three. -/
theorem incremental_eq_full_tiny :
    ∃ logits full,
      (tinyModel.incremental (Sequence.ofRequest tinyRequest ⟨0, 4, 1⟩) [1] tinyCache).1 =
        .ok [logits] ∧
      (tinyModel.forwardT [[0, 1, 1]] [positionIds 3] [⟨0, 4, 1⟩] true tinyCache).1 = .ok [full] ∧
      full.getLast? = some logits := by
  have hnew : Sequence.new tinyRequest (SlabKvCache.new 1 4 1 1 1) =
      (.ok (Sequence.ofRequest tinyRequest ⟨0, 4, 1⟩), tinyCache) := rfl
  refine incremental_eq_full tinyModel KvHistory.Run.start hnew (by decide) [1] ?_
  refine ⟨?_, by decide, by decide, by decide⟩
  change ∀ token ∈ [(0 : Token), 1, 1], token.toNat < 2
  simp

end Gpt2Model

end HotBatch
