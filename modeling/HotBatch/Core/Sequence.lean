import HotBatch.Core.KvCache
import HotBatch.Core.Sampler

/-!
# Requests and sequences

A `GenerationRequest` is what a client submits; a `Sequence` is an admitted request with its cache
handle, its sampler and the tokens generated so far. Appending a token decides whether the sequence
finishes, and taking the emittable tokens withholds those that may still turn out to be the start of
a stop sequence. Wall-clock fields are not part of the model.

`Emission` is the invariant behind the slice in `take_emittable_tokens`: what has been taken never
reaches past the tokens that are safe to show.
-/

namespace HotBatch

inductive FinishReason where
  | length
  | stop
  deriving DecidableEq, Repr

inductive StreamItem where
  | token (token : Token)
  | finished (reason : FinishReason)
  | error (message : String)
  deriving DecidableEq

def StreamItem.token? : StreamItem → Option Token
  | .token value => some value
  | .finished _ | .error _ => none

/-- One client: its channel and its `response_done` token are known by this name. -/
abbrev ClientId := ℕ

/-- `id` is the text of the request's identifier, which only error messages show. -/
structure GenerationRequest (α : Type) where
  id : String
  promptTokens : List Token
  samplerConfig : SamplerConfig α
  client : ClientId
  priority : UInt8
  promptHash : UInt64

namespace GenerationRequest

variable {α : Type}

def promptLen (req : GenerationRequest α) : ℕ := req.promptTokens.length

def maxNewTokens (req : GenerationRequest α) : ℕ := req.samplerConfig.maxNewTokens

end GenerationRequest

inductive SequenceState where
  | prefilling
  | running
  | finished
  | cancelled
  | failed
  deriving DecidableEq, Repr

structure Sequence (α : Type) where
  id : String
  promptTokens : List Token
  generatedTokens : List Token
  kvHandle : KvHandle
  sampler : Sampler α
  client : ClientId
  state : SequenceState
  finishReason : Option FinishReason
  emittedTokens : ℕ
  terminalTrimTokens : ℕ
  promptHash : UInt64

namespace Sequence

variable {α : Type}

/-- The sequence of a request that has been given a cache handle. -/
def ofRequest (req : GenerationRequest α) (handle : KvHandle) : Sequence α where
  id := req.id
  promptTokens := req.promptTokens
  generatedTokens := []
  kvHandle := handle
  sampler := .new req.samplerConfig
  client := req.client
  state := .prefilling
  finishReason := none
  emittedTokens := 0
  terminalTrimTokens := 0
  promptHash := req.promptHash

/-- `Sequence::new`. -/
def new {τ : Type} (req : GenerationRequest α) (cache : SlabKvCache τ) :
    Except KvError (Sequence α) × SlabKvCache τ :=
  match cache.allocate req.promptLen req.maxNewTokens with
  | (.ok handle, cache) => (.ok (ofRequest req handle), cache)
  | (.error err, cache) => (.error err, cache)

/-- A new sequence is that of its request. -/
theorem exists_ofRequest_of_new {τ : Type} {req : GenerationRequest α} {cache kvCache : SlabKvCache τ}
    {seq : Sequence α} (hnew : new req cache = (.ok seq, kvCache)) :
    ∃ handle, seq = ofRequest req handle := by
  unfold new at hnew
  split at hnew
  · rename_i handle _ _
    exact ⟨handle, (Except.ok.inj (Prod.mk.inj hnew).1).symm⟩
  · cases (Prod.mk.inj hnew).1

def markRunning (seq : Sequence α) : Sequence α :=
  if seq.state = .prefilling then { seq with state := .running } else seq

/-- Length of the longest stop sequence that the generated tokens end with. -/
def matchedStopLen (seq : Sequence α) : Option ℕ :=
  let generated := seq.generatedTokens
  ((seq.sampler.stopSequences.filter fun stop ↦
    !stop.isEmpty && decide (stop.length ≤ generated.length) &&
      generated.drop (generated.length - stop.length) == stop).map List.length).max?

/-- The longest prefix of `stop`, of at most the given length, that `generated` ends with; lengths
are tried from the longest down. -/
def longestPrefixLen (generated stop : List Token) : ℕ → ℕ
  | 0 => 0
  | prefixLen + 1 =>
      if generated.drop (generated.length - (prefixLen + 1)) = stop.take (prefixLen + 1) then
        prefixLen + 1
      else longestPrefixLen generated stop prefixLen

/-- Length of the longest end of the generated tokens that may still become a stop sequence. -/
def pendingStopPrefixLen (seq : Sequence α) : ℕ :=
  let generated := seq.generatedTokens
  (((seq.sampler.stopSequences.filter fun stop ↦ !stop.isEmpty).map fun stop ↦
    longestPrefixLen generated stop (min stop.length generated.length)).max?).getD 0

/-- `generated_tokens.push(token)`. -/
def push (token : Token) (seq : Sequence α) : Sequence α :=
  { seq with generatedTokens := seq.generatedTokens ++ [token] }

/-- `append_token`. -/
def appendToken (token : Token) (seq : Sequence α) : Sequence α :=
  let seq := seq.push token
  if seq.finishReason.isNone then
    let matched := seq.matchedStopLen
    if token = seq.sampler.eosToken ∨ matched.isSome then
      { seq with
        terminalTrimTokens := matched.getD 1
        state := .finished
        finishReason := some .stop }
    else if seq.sampler.maxNewTokens ≤ seq.generatedTokens.length then
      { seq with
        state := .finished
        finishReason := some .length }
    else seq
  else seq

def isDone (seq : Sequence α) : Bool :=
  match seq.state with
  | .finished | .cancelled | .failed => true
  | .prefilling | .running => false

def cancel (seq : Sequence α) : Sequence α :=
  if seq.isDone then seq else { seq with state := .cancelled }

def fail (seq : Sequence α) : Sequence α :=
  if seq.isDone then seq else { seq with state := .failed }

/-- End of the generated tokens that may be shown. -/
def safeEnd (seq : Sequence α) : ℕ :=
  match seq.finishReason with
  | some .stop => seq.generatedTokens.length - seq.terminalTrimTokens
  | some .length => seq.generatedTokens.length
  | none => seq.generatedTokens.length - seq.pendingStopPrefixLen

/-- `take_emittable_tokens`; `none` where the slice `emitted_tokens..safe_end` panics. -/
def takeEmittableTokens (seq : Sequence α) : Option (List Token × Sequence α) :=
  let safeEnd := seq.safeEnd
  if seq.emittedTokens ≤ safeEnd ∧ safeEnd ≤ seq.generatedTokens.length then
    some ((seq.generatedTokens.take safeEnd).drop seq.emittedTokens,
      { seq with emittedTokens := safeEnd })
  else none

def lastToken (seq : Sequence α) : Token :=
  (seq.generatedTokens.getLast?.or seq.promptTokens.getLast?).getD 0

def decodePosition (seq : Sequence α) : ℕ :=
  Usize.saturatingAdd (seq.promptTokens.length - 1) seq.generatedTokens.length

def seed (seq : Sequence α) : UInt64 := seq.sampler.config.seed

/-! ## What the state changes leave alone -/

@[simp]
theorem cancel_generatedTokens (seq : Sequence α) :
    seq.cancel.generatedTokens = seq.generatedTokens := by
  unfold cancel
  split <;> rfl

@[simp]
theorem cancel_client (seq : Sequence α) : seq.cancel.client = seq.client := by
  unfold cancel
  split <;> rfl

@[simp]
theorem cancel_kvHandle (seq : Sequence α) : seq.cancel.kvHandle = seq.kvHandle := by
  unfold cancel
  split <;> rfl

@[simp]
theorem cancel_isDone (seq : Sequence α) : seq.cancel.isDone = true := by
  unfold cancel
  split
  · assumption
  · rfl

@[simp]
theorem fail_generatedTokens (seq : Sequence α) :
    seq.fail.generatedTokens = seq.generatedTokens := by
  unfold fail
  split <;> rfl

@[simp]
theorem fail_client (seq : Sequence α) : seq.fail.client = seq.client := by
  unfold fail
  split <;> rfl

@[simp]
theorem fail_kvHandle (seq : Sequence α) : seq.fail.kvHandle = seq.kvHandle := by
  unfold fail
  split <;> rfl

@[simp]
theorem fail_isDone (seq : Sequence α) : seq.fail.isDone = true := by
  unfold fail
  split
  · assumption
  · rfl

@[simp]
theorem markRunning_kvHandle (seq : Sequence α) : seq.markRunning.kvHandle = seq.kvHandle := by
  unfold markRunning
  split <;> rfl

@[simp]
theorem markRunning_client (seq : Sequence α) : seq.markRunning.client = seq.client := by
  unfold markRunning
  split <;> rfl

@[simp]
theorem markRunning_isDone (seq : Sequence α) : seq.markRunning.isDone = seq.isDone := by
  unfold markRunning
  split
  · rename_i hstate
    simp [isDone, hstate]
  · rfl

@[simp]
theorem push_finishReason (token : Token) (seq : Sequence α) :
    (seq.push token).finishReason = seq.finishReason := rfl

@[simp]
theorem push_length (token : Token) (seq : Sequence α) :
    (seq.push token).generatedTokens.length = seq.generatedTokens.length + 1 :=
  List.length_append

/-- The fields that appending a token never changes. -/
theorem appendToken_frame (token : Token) (seq : Sequence α) :
    (seq.appendToken token).id = seq.id ∧
    (seq.appendToken token).promptTokens = seq.promptTokens ∧
    (seq.appendToken token).kvHandle = seq.kvHandle ∧
    (seq.appendToken token).sampler = seq.sampler ∧
    (seq.appendToken token).client = seq.client ∧
    (seq.appendToken token).emittedTokens = seq.emittedTokens ∧
    (seq.appendToken token).promptHash = seq.promptHash := by
  unfold appendToken
  dsimp only
  split_ifs <;> simp [push]

@[simp]
theorem appendToken_generatedTokens (token : Token) (seq : Sequence α) :
    (seq.appendToken token).generatedTokens = seq.generatedTokens ++ [token] := by
  unfold appendToken
  dsimp only
  split_ifs <;> rfl

/-- Appending to an unfinished sequence finishes it, or leaves its state alone below the limit. -/
theorem appendToken_state {token : Token} {seq : Sequence α} (hreason : seq.finishReason = none) :
    (seq.appendToken token).state = .finished ∧ (seq.appendToken token).finishReason.isSome ∨
      (seq.appendToken token).state = seq.state ∧ (seq.appendToken token).finishReason = none ∧
        seq.generatedTokens.length + 1 < seq.sampler.maxNewTokens := by
  have hpush : (seq.push token).finishReason.isNone = true := by
    rw [push_finishReason, hreason]
    rfl
  unfold appendToken
  dsimp only
  rw [if_pos hpush]
  split_ifs with hstop hlimit
  · exact Or.inl ⟨rfl, rfl⟩
  · exact Or.inl ⟨rfl, rfl⟩
  · rw [push_length] at hlimit
    exact Or.inr ⟨rfl, hreason, Nat.not_le.mp hlimit⟩

/-! ## Stops at the end of the generated tokens -/

theorem longestPrefixLen_le (generated stop : List Token) (bound : ℕ) :
    longestPrefixLen generated stop bound ≤ bound := by
  induction bound with
  | zero => exact Nat.le_refl _
  | succ bound ih =>
      rw [longestPrefixLen]
      split
      · exact Nat.le_refl _
      · exact Nat.le_succ_of_le ih

/-- The search finds a prefix that the tokens do end with. -/
theorem take_longestPrefixLen_suffix (generated stop : List Token) (bound : ℕ) :
    stop.take (longestPrefixLen generated stop bound) <:+ generated := by
  induction bound with
  | zero => simp [longestPrefixLen]
  | succ bound ih =>
      rw [longestPrefixLen]
      split
      · rename_i hmatch
        rw [← hmatch]
        exact List.drop_suffix _ _
      · exact ih

/-- The search finds the longest one. -/
theorem le_longestPrefixLen {generated stop : List Token} {bound prefixLen : ℕ}
    (hbound : prefixLen ≤ bound) (hlen : prefixLen ≤ stop.length)
    (hsuffix : stop.take prefixLen <:+ generated) :
    prefixLen ≤ longestPrefixLen generated stop bound := by
  induction bound with
  | zero => exact hbound
  | succ bound ih =>
      rw [longestPrefixLen]
      split
      · exact hbound
      · rename_i hmismatch
        rcases Nat.lt_or_eq_of_le hbound with hlt | rfl
        · exact ih (Nat.lt_succ_iff.mp hlt)
        · refine absurd ?_ hmismatch
          rw [List.suffix_iff_eq_drop, List.length_take, Nat.min_eq_left hlen] at hsuffix
          exact hsuffix.symm

/-- Every non-empty stop prefix that the generated tokens end with is withheld. -/
theorem le_pendingStopPrefixLen (seq : Sequence α) {stop : List Token} {prefixLen : ℕ}
    (hstop : stop ∈ seq.sampler.stopSequences) (hlen : prefixLen ≤ stop.length)
    (hsuffix : stop.take prefixLen <:+ seq.generatedTokens) :
    prefixLen ≤ seq.pendingStopPrefixLen := by
  rcases Nat.eq_zero_or_pos prefixLen with rfl | hpos
  · exact Nat.zero_le _
  have hne : (!stop.isEmpty) = true := by
    cases stop with
    | nil => exact absurd hlen (Nat.not_le.mpr hpos)
    | cons token rest => rfl
  have hgenerated : prefixLen ≤ seq.generatedTokens.length := by
    have hle := hsuffix.length_le
    rwa [List.length_take, Nat.min_eq_left hlen] at hle
  calc prefixLen
      ≤ longestPrefixLen seq.generatedTokens stop
          (min stop.length seq.generatedTokens.length) :=
        le_longestPrefixLen (Nat.le_min.mpr ⟨hlen, hgenerated⟩) hlen hsuffix
    _ ≤ seq.pendingStopPrefixLen := by
        apply List.le_max?_getD_of_mem
        apply List.mem_map_of_mem
        exact List.mem_filter.mpr ⟨hstop, hne⟩

/-- What is withheld is a prefix of some stop. -/
theorem exists_pendingStop (seq : Sequence α) (hpos : 0 < seq.pendingStopPrefixLen) :
    ∃ stop ∈ seq.sampler.stopSequences, seq.pendingStopPrefixLen ≤ stop.length ∧
      stop.take seq.pendingStopPrefixLen <:+ seq.generatedTokens := by
  unfold pendingStopPrefixLen at hpos ⊢
  dsimp only at hpos ⊢
  generalize hlens : List.map _ _ = lens at hpos ⊢
  cases hmax : lens.max? with
  | none => simp [hmax] at hpos
  | some longest =>
      have hmem : longest ∈ lens := List.max?_mem hmax
      rw [← hlens, List.mem_map] at hmem
      obtain ⟨stop, hstop, rfl⟩ := hmem
      rw [Option.getD_some]
      refine ⟨stop, (List.mem_filter.mp hstop).1, ?_, take_longestPrefixLen_suffix _ _ _⟩
      exact (longestPrefixLen_le _ _ _).trans (Nat.min_le_left _ _)

theorem pendingStopPrefixLen_le (seq : Sequence α) :
    seq.pendingStopPrefixLen ≤ seq.generatedTokens.length := by
  rcases Nat.eq_zero_or_pos seq.pendingStopPrefixLen with hzero | hpos
  · rw [hzero]
    exact Nat.zero_le _
  · obtain ⟨stop, -, hlen, hsuffix⟩ := seq.exists_pendingStop hpos
    have hle := hsuffix.length_le
    rwa [List.length_take, Nat.min_eq_left hlen] at hle

/-- A matched length is that of a non-empty stop that the generated tokens end with. -/
theorem exists_of_matchedStopLen {seq : Sequence α} {matched : ℕ}
    (hmatched : seq.matchedStopLen = some matched) :
    ∃ stop ∈ seq.sampler.stopSequences, stop ≠ [] ∧ stop.length = matched ∧
      stop <:+ seq.generatedTokens := by
  have hmem := List.max?_mem hmatched
  obtain ⟨stop, hstop, rfl⟩ := List.mem_map.mp hmem
  rw [List.mem_filter] at hstop
  simp only [Bool.and_eq_true, Bool.not_eq_true', List.isEmpty_eq_false_iff, decide_eq_true_eq,
    beq_iff_eq] at hstop
  obtain ⟨hin, ⟨hne, -⟩, hdrop⟩ := hstop
  exact ⟨stop, hin, hne, rfl, List.suffix_iff_eq_drop.mpr hdrop.symm⟩

/-- A stop prefix that ends with a new token was already pending without it. -/
theorem pred_le_pendingStopPrefixLen (seq : Sequence α) {stop : List Token} {prefixLen : ℕ}
    {token : Token} (hstop : stop ∈ seq.sampler.stopSequences) (hlen : prefixLen ≤ stop.length)
    (hsuffix : stop.take prefixLen <:+ (seq.push token).generatedTokens) :
    prefixLen ≤ seq.pendingStopPrefixLen + 1 := by
  cases prefixLen with
  | zero => exact Nat.zero_le _
  | succ prefixLen =>
      apply Nat.succ_le_succ
      apply seq.le_pendingStopPrefixLen hstop (Nat.le_of_succ_le hlen)
      rw [← List.take_append_getElem (Nat.lt_of_succ_le hlen)] at hsuffix
      obtain ⟨before, hbefore⟩ := hsuffix
      rw [← List.append_assoc] at hbefore
      exact ⟨before, (List.append_inj' hbefore rfl).1⟩

/-! ## What may be shown only grows -/

theorem safeEnd_le (seq : Sequence α) : seq.safeEnd ≤ seq.generatedTokens.length := by
  unfold safeEnd
  split
  · exact Nat.sub_le _ _
  · exact Nat.le_refl _
  · exact Nat.sub_le _ _

/-- Appending a token never takes back a token that was safe to show: a stop sequence that the new
token completes or continues was pending before, apart from the token itself. -/
theorem safeEnd_le_appendToken (token : Token) (seq : Sequence α) :
    seq.safeEnd ≤ (seq.appendToken token).safeEnd := by
  cases hreason : seq.finishReason with
  | some reason =>
      have happend : seq.appendToken token = seq.push token := by
        unfold appendToken
        simp [hreason]
      rw [happend]
      unfold safeEnd
      rw [push_finishReason, push_length, hreason]
      cases reason with
      | length => exact Nat.le_succ _
      | stop => exact Nat.sub_le_sub_right (Nat.le_succ _) _
  | none =>
      have hold : seq.safeEnd = seq.generatedTokens.length - seq.pendingStopPrefixLen := by
        unfold safeEnd
        rw [hreason]
      have hlen := seq.push_length token
      unfold appendToken
      simp only [push_finishReason, hreason, Option.isNone_none, if_true]
      split_ifs with hstop hlimit
      · -- Stop: the matched sequence without its last token was pending.
        rw [hold]
        simp only [safeEnd, hlen]
        cases hmatched : (seq.push token).matchedStopLen with
        | none =>
            rw [Option.getD_none]
            omega
        | some matched =>
            obtain ⟨stop, hin, -, hmatchedLen, hsuffix⟩ := exists_of_matchedStopLen hmatched
            have hpending := seq.pred_le_pendingStopPrefixLen hin (Nat.le_refl _)
              (by rwa [List.take_length])
            rw [Option.getD_some]
            omega
      · rw [hold]
        simp only [safeEnd, hlen]
        omega
      · -- Unfinished: the pending end can have grown by the new token at most.
        have hnew : (seq.push token).safeEnd =
            seq.generatedTokens.length + 1 - (seq.push token).pendingStopPrefixLen := by
          unfold safeEnd
          rw [push_finishReason, hreason, hlen]
        have hgrowth : (seq.push token).pendingStopPrefixLen ≤ seq.pendingStopPrefixLen + 1 := by
          rcases Nat.eq_zero_or_pos (seq.push token).pendingStopPrefixLen with hzero | hpos
          · rw [hzero]
            exact Nat.zero_le _
          · obtain ⟨stop, hin, hle, hsuffix⟩ := exists_pendingStop _ hpos
            exact seq.pred_le_pendingStopPrefixLen hin hle hsuffix
        omega

/-- What has been taken so far. -/
def takenTokens (seq : Sequence α) : List Token := seq.generatedTokens.take seq.emittedTokens

/-- The slice in `take_emittable_tokens` is in range exactly when nothing unsafe has been taken. -/
theorem takeEmittableTokens_eq_some {seq : Sequence α} {tokens : List Token}
    {seq' : Sequence α} :
    seq.takeEmittableTokens = some (tokens, seq') ↔
      seq.emittedTokens ≤ seq.safeEnd ∧
      tokens = (seq.generatedTokens.take seq.safeEnd).drop seq.emittedTokens ∧
      seq' = { seq with emittedTokens := seq.safeEnd } := by
  unfold takeEmittableTokens
  by_cases hsafe : seq.emittedTokens ≤ seq.safeEnd
  · simp only [hsafe, seq.safeEnd_le, and_self, if_true, Option.some.injEq, Prod.mk.injEq,
      true_and]
    exact and_congr eq_comm eq_comm
  · simp [hsafe]

/-- Taking appends the new tokens to those taken before. -/
theorem takenTokens_takeEmittableTokens {seq seq' : Sequence α} {tokens : List Token}
    (htake : seq.takeEmittableTokens = some (tokens, seq')) :
    seq'.takenTokens = seq.takenTokens ++ tokens := by
  obtain ⟨hsafe, rfl, rfl⟩ := takeEmittableTokens_eq_some.mp htake
  have hold : seq.generatedTokens.take seq.emittedTokens =
      (seq.generatedTokens.take seq.safeEnd).take seq.emittedTokens := by
    rw [List.take_take, Nat.min_eq_left hsafe]
  calc seq.generatedTokens.take seq.safeEnd
      = (seq.generatedTokens.take seq.safeEnd).take seq.emittedTokens ++
          (seq.generatedTokens.take seq.safeEnd).drop seq.emittedTokens :=
        (List.take_append_drop _ _).symm
    _ = seq.takenTokens ++ (seq.generatedTokens.take seq.safeEnd).drop seq.emittedTokens := by
        rw [takenTokens, hold]

/-! ## One turn of an engine's loop -/

variable [Floats α]

/-- `sample` and `append_token`. -/
def appendSampled (row : LogitRow α) (seq : Sequence α) : Sequence α :=
  { seq with sampler := (seq.sampler.sample row).2 }.appendToken (seq.sampler.sample row).1

/-- `sample`, `append_token` and `take_emittable_tokens`, as both engines call them for a row of
logits: the tokens to send, and the sequence afterwards. -/
def advance (row : LogitRow α) (seq : Sequence α) : Option (List Token × Sequence α) :=
  (seq.appendSampled row).takeEmittableTokens

theorem appendSampled_frame (row : LogitRow α) (seq : Sequence α) :
    (seq.appendSampled row).id = seq.id ∧
    (seq.appendSampled row).promptTokens = seq.promptTokens ∧
    (seq.appendSampled row).kvHandle = seq.kvHandle ∧
    (seq.appendSampled row).client = seq.client ∧
    (seq.appendSampled row).promptHash = seq.promptHash ∧
    (seq.appendSampled row).sampler = (seq.sampler.sample row).2 ∧
    (seq.appendSampled row).emittedTokens = seq.emittedTokens ∧
    (seq.appendSampled row).generatedTokens =
      seq.generatedTokens ++ [(seq.sampler.sample row).1] := by
  obtain ⟨hid, hprompt, hhandle, hsampler, hclient, hemitted, hhash⟩ :=
    appendToken_frame (seq.sampler.sample row).1 { seq with sampler := (seq.sampler.sample row).2 }
  exact ⟨hid, hprompt, hhandle, hclient, hhash, hsampler, hemitted, appendToken_generatedTokens _ _⟩

theorem safeEnd_le_appendSampled (row : LogitRow α) (seq : Sequence α) :
    seq.safeEnd ≤ (seq.appendSampled row).safeEnd := by
  have hsafe : ({ seq with sampler := (seq.sampler.sample row).2 } : Sequence α).safeEnd =
      seq.safeEnd := by
    unfold safeEnd pendingStopPrefixLen Sampler.stopSequences
    dsimp only
    rw [Sampler.sample_config]
  rw [← hsafe]
  exact safeEnd_le_appendToken _ _

theorem appendSampled_state (row : LogitRow α) {seq : Sequence α} (hreason : seq.finishReason = none) :
    (seq.appendSampled row).state = .finished ∧ (seq.appendSampled row).finishReason.isSome ∨
      (seq.appendSampled row).state = seq.state ∧ (seq.appendSampled row).finishReason = none ∧
        seq.generatedTokens.length + 1 < seq.sampler.maxNewTokens := by
  have hconfig : (seq.sampler.sample row).2.maxNewTokens = seq.sampler.maxNewTokens := by
    unfold Sampler.maxNewTokens
    rw [Sampler.sample_config]
  rw [← hconfig]
  have hsame : ({ seq with sampler := (seq.sampler.sample row).2 } : Sequence α).finishReason = none :=
    hreason
  exact appendToken_state hsame

theorem advance_eq_some {row : LogitRow α} {seq stepped : Sequence α} {tokens : List Token} :
    seq.advance row = some (tokens, stepped) ↔
      seq.emittedTokens ≤ (seq.appendSampled row).safeEnd ∧
      tokens = ((seq.appendSampled row).generatedTokens.take (seq.appendSampled row).safeEnd).drop
        seq.emittedTokens ∧
      stepped = { seq.appendSampled row with emittedTokens := (seq.appendSampled row).safeEnd } := by
  obtain ⟨-, -, -, -, -, -, hemitted, -⟩ := appendSampled_frame row seq
  rw [← hemitted]
  exact takeEmittableTokens_eq_some

/-- What a turn changes, and that it changes nothing else that identifies the sequence. -/
theorem advance_frame {row : LogitRow α} {seq stepped : Sequence α} {tokens : List Token}
    (hadvance : seq.advance row = some (tokens, stepped)) :
    stepped.id = seq.id ∧ stepped.promptTokens = seq.promptTokens ∧
    stepped.kvHandle = seq.kvHandle ∧ stepped.client = seq.client ∧
    stepped.promptHash = seq.promptHash ∧ stepped.sampler = (seq.sampler.sample row).2 ∧
    stepped.generatedTokens = seq.generatedTokens ++ [(seq.sampler.sample row).1] := by
  obtain ⟨-, -, rfl⟩ := advance_eq_some.mp hadvance
  obtain ⟨hid, hprompt, hhandle, hclient, hhash, hsampler, -, hgenerated⟩ :=
    appendSampled_frame row seq
  exact ⟨hid, hprompt, hhandle, hclient, hhash, hsampler, hgenerated⟩

/-- Everything that may be shown has been taken. -/
theorem advance_emittedTokens {row : LogitRow α} {seq stepped : Sequence α} {tokens : List Token}
    (hadvance : seq.advance row = some (tokens, stepped)) :
    stepped.emittedTokens = stepped.safeEnd := by
  obtain ⟨-, -, rfl⟩ := advance_eq_some.mp hadvance
  rfl

/-- A turn of an unfinished sequence finishes it, or leaves its state alone below the limit. -/
theorem advance_state {row : LogitRow α} {seq stepped : Sequence α} {tokens : List Token}
    (hadvance : seq.advance row = some (tokens, stepped)) (hreason : seq.finishReason = none) :
    stepped.state = .finished ∧ stepped.finishReason.isSome ∨
      stepped.state = seq.state ∧ stepped.finishReason = none ∧
        seq.generatedTokens.length + 1 < seq.sampler.maxNewTokens := by
  obtain ⟨-, -, rfl⟩ := advance_eq_some.mp hadvance
  exact appendSampled_state row hreason

/-- What has been taken grows by what a turn returns. -/
theorem advance_takenTokens {row : LogitRow α} {seq stepped : Sequence α} {tokens : List Token}
    (hadvance : seq.advance row = some (tokens, stepped))
    (hemitted : seq.emittedTokens ≤ seq.generatedTokens.length) :
    stepped.takenTokens = seq.takenTokens ++ tokens := by
  obtain ⟨-, -, -, -, -, -, hsame, hgenerated⟩ := appendSampled_frame row seq
  rw [takenTokens_takeEmittableTokens hadvance]
  unfold takenTokens
  rw [hsame, hgenerated, List.take_append_of_le_length hemitted]

end Sequence

end HotBatch
