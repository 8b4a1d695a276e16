import HotBatch.Core.PassErrors
import HotBatch.Scheduler.Following

/-!
# Within capacity

A request that validation lets through never outgrows what was reserved for it: before a decode pass
its slot holds as many tokens as its position says, afterwards one more, and there is always room for
that one. The cache has to be built with the model's `kv_shape()`.
-/

namespace HotBatch

namespace Scheduler

variable {α : Type} [Kernels α] {scheduler : Scheduler α} {maxSeqLen : ℕ}

/-! ## One sequence -/

namespace Follows

variable {req : GenerationRequest α} {turns : ℕ} {seq : Sequence α}

theorem generated_lt (hfollows : Follows scheduler maxSeqLen req turns seq)
    (hdone : seq.isDone = false) : seq.generatedTokens.length < req.maxNewTokens := by
  have hseq := hfollows.eq_after hdone
  rw [hseq] at hdone ⊢
  obtain ⟨hlength, hlt⟩ :=
    PrivateState.generated_length hfollows.admitted.admissible.maxNew_pos hdone
  rwa [hlength]

/-- The position leaves room for the token that is decoded next. -/
theorem decodePosition_lt (hfollows : Follows scheduler maxSeqLen req turns seq)
    (hdone : seq.isDone = false) :
    seq.decodePosition + 1 < req.promptLen + req.maxNewTokens := by
  have hseq := hfollows.eq_after hdone
  have htotal : 0 < req.promptLen :=
    List.length_pos_iff.mpr hfollows.admitted.admissible.prompt_ne
  rw [hseq] at hdone ⊢
  have hle := PrivateState.decodePosition_lt hfollows.admitted.admissible hdone
  omega

theorem position_lt_maxPositions (hfollows : Follows scheduler maxSeqLen req turns seq)
    (hdone : seq.isDone = false) : seq.decodePosition < scheduler.model.maxPositions :=
  calc seq.decodePosition
      < seq.decodePosition + 1 := Nat.lt_succ_self _
    _ < req.promptLen + req.maxNewTokens := hfollows.decodePosition_lt hdone
    _ ≤ scheduler.model.maxPositions := hfollows.admitted.total_le_positions

theorem next_le_capacity (hfollows : Follows scheduler maxSeqLen req turns seq)
    (hdone : seq.isDone = false) : seq.decodePosition + 1 ≤ seq.kvHandle.capacityTokens := by
  rw [hfollows.capacity_eq]
  exact (hfollows.decodePosition_lt hdone).le

theorem capacity_le (hfollows : Follows scheduler maxSeqLen req turns seq) :
    seq.kvHandle.capacityTokens ≤ maxSeqLen := by
  rw [hfollows.capacity_eq]
  exact hfollows.admitted.total_le_cache

/-- A slot that is ready holds as many tokens as the position of its sequence says. -/
theorem cachedTokens_ready (hfollows : Follows scheduler maxSeqLen req turns seq)
    (hdone : seq.isDone = false) {index : ℕ} {store : KvStore α}
    (hcached : Cached scheduler.model index store
      (PrivateState.after scheduler.model req seq.kvHandle turns) .ready) :
    scheduler.model.CachedTokens store seq.decodePosition := by
  have hseq := hfollows.eq_after hdone
  obtain rfl : store = _ := hcached
  rw [hseq, PrivateState.kvHandle_after]
  apply PrivateState.cachedTokens_after hfollows.admitted.admissible hfollows.accepted
  rw [← hseq]
  exact hdone

/-- After the pass it holds one more. -/
theorem cachedTokens_ahead (hfollows : Follows scheduler maxSeqLen req turns seq)
    (hdone : seq.isDone = false) {index : ℕ} {store : KvStore α} {logits : List (LogitRow α)}
    (hcached : Cached scheduler.model index store
      (PrivateState.after scheduler.model req seq.kvHandle turns) (.ahead logits)) :
    scheduler.model.CachedTokens store (seq.decodePosition + 1) := by
  obtain ⟨-, rfl, -⟩ := hcached
  have hready : scheduler.model.CachedTokens
      (PrivateState.after scheduler.model req seq.kvHandle turns).store seq.decodePosition :=
    hfollows.cachedTokens_ready hdone (show Cached scheduler.model index _ _ .ready from rfl)
  have hlt := hfollows.decodePosition_lt hdone
  have htotal := hfollows.admitted.admissible.total_lt
  rw [← hfollows.eq_after hdone]
  apply SmallTransformer.cachedTokens_decodeRow hready
  unfold Usize.maxValue
  change seq.decodePosition < _
  omega

end Follows

/-! ## The passes of the scheduler -/

section Passes

variable {s : State α} {origin : SlabKvCache (KvTensor α)}

omit [Kernels α] in
/-- The cache keeps the shape it was built with. -/
theorem shapedFor_of_sameShape {cache : SlabKvCache (KvTensor α)} {model : SmallTransformer α}
    (hsame : cache.SameShape origin) (hshape : model.ShapedFor origin) : model.ShapedFor cache where
  numLayers_eq := hsame.numLayers_eq.trans hshape.numLayers_eq
  nHeads_eq := hsame.nHeads_eq.trans hshape.nHeads_eq
  headDim_eq := hsame.headDim_eq.trans hshape.headDim_eq

/-- What is known of a sequence of the batch before a decode pass. -/
theorem exists_follows_of_forward (hfollowing : Following scheduler maxSeqLen s)
    (hslots : Slots scheduler origin s.pc s.running s.kvCache) (hpc : s.pc = .forward)
    {seq : Sequence α} (hseq : seq ∈ s.running) :
    seq.isDone = false ∧ ∃ req ∈ s.history.accepted, ∃ turns,
      Follows scheduler maxSeqLen req turns seq ∧
        scheduler.model.CachedTokens (s.kvCache.stored seq.kvHandle) seq.decodePosition := by
  obtain ⟨index, hindex⟩ := List.mem_iff_getElem?.mp hseq
  have hdone := hslots.notDone_at hpc hindex trivial
  obtain ⟨req, hreq, turns, hfollows, hcached⟩ := hfollowing.running index seq hindex
  rw [hpc] at hcached
  exact ⟨hdone, req, hreq, turns, hfollows, hfollows.cachedTokens_ready hdone (hcached hdone)⟩

/-- The row of a sequence that has not been visited is there. -/
theorem exists_follows_of_sampleToken {index : ℕ} {logits : List (LogitRow α)} {seq : Sequence α}
    (hfollowing : Following scheduler maxSeqLen s)
    (hslots : Slots scheduler origin s.pc s.running s.kvCache)
    (hpc : s.pc = .sampleToken index logits) (hseq : s.running[index]? = some seq) :
    seq.isDone = false ∧ ∃ req turns, Follows scheduler maxSeqLen req turns seq ∧
      logits[index]? = some (scheduler.model.decodeRow
        (PrivateState.after scheduler.model req seq.kvHandle turns).store
        (PrivateState.after scheduler.model req seq.kvHandle turns).seq.decodeInput).1 := by
  have hdone := hslots.notDone_at hpc hseq (Nat.le_refl index)
  have htrack := hfollowing.running index seq hseq
  rw [hpc] at htrack
  change OnTrack _ _ _ (if index ≤ index then .ahead logits else .ready) _ _ _ at htrack
  rw [if_pos (Nat.le_refl index)] at htrack
  obtain ⟨req, -, turns, hfollows, hcached⟩ := htrack
  exact ⟨hdone, req, turns, hfollows, (hcached hdone).1⟩

/-- In a decode pass, a row only depends on its token. -/
theorem rowOk_of_forward (hfollowing : Following scheduler maxSeqLen s)
    (hslots : Slots scheduler origin s.pc s.running s.kvCache)
    (hshape : scheduler.model.ShapedFor origin) (hpc : s.pc = .forward) :
    ∀ input ∈ s.running.map Sequence.decodeInput,
      input.position < scheduler.model.maxPositions ∧
        (scheduler.model.AcceptsInput input → scheduler.model.RowOk s.kvCache input) := by
  intro input hinput
  obtain ⟨seq, hseq, rfl⟩ := List.mem_map.mp hinput
  obtain ⟨hdone, req, -, turns, hfollows, hcached⟩ :=
    exists_follows_of_forward hfollowing hslots hpc hseq
  refine ⟨hfollows.position_lt_maxPositions hdone, fun haccepts ↦ ?_⟩
  exact haccepts.rowOk (shapedFor_of_sameShape hslots.sameShape hshape) hcached
    (hfollows.next_le_capacity hdone)

/-- Nothing is ever evicted. -/
theorem evictAt_of_following {index : ℕ} {seq : Sequence α}
    (hfollowing : Following scheduler maxSeqLen s)
    (hslots : Slots scheduler origin s.pc s.running s.kvCache) (hpc : s.pc = .evict index)
    (hseq : s.running[index]? = some seq) :
    evictAt scheduler index s = s.goto (.evict (index + 1)) := by
  have hdone := hslots.notDone_at hpc hseq (Nat.le_refl index)
  obtain ⟨req, -, turns, hfollows, -⟩ := hfollowing.running index seq hseq
  unfold evictAt
  rw [hseq]
  dsimp only
  rw [if_neg (Nat.not_le.mpr (hfollows.position_lt_maxPositions hdone))]

/-- A successful pass caches one more token of every sequence of the batch. -/
theorem cachedTokens_forward (hfollowing : Following scheduler maxSeqLen s)
    (hslots : Slots scheduler origin s.pc s.running s.kvCache) (hpc : s.pc = .forward)
    {logits : List (LogitRow α)}
    (hsucceeds : (forward scheduler s).pc = .checkDone (.delivering 0 logits)) {seq : Sequence α}
    (hseq : seq ∈ s.running) :
    scheduler.model.CachedTokens ((forward scheduler s).kvCache.stored seq.kvHandle)
      (seq.decodePosition + 1) := by
  have hafter := following_forward hfollowing hslots hpc
  have hrunning : (forward scheduler s).running = s.running := by
    unfold forward
    split <;> rfl
  obtain ⟨index, hindex⟩ := List.mem_iff_getElem?.mp hseq
  have hdone := (exists_follows_of_forward hfollowing hslots hpc hseq).1
  obtain ⟨req, -, turns, hfollows, hcached⟩ := hafter.running index seq (hrunning ▸ hindex)
  rw [hsucceeds] at hcached
  exact hfollows.cachedTokens_ahead hdone (hcached hdone)

omit [Kernels α] in
/-- Validation leaves only one reason for `allocate` to fail. -/
theorem freeSlots_of_allocate_error {req : GenerationRequest α} {cache : SlabKvCache (KvTensor α)}
    (hvalid : validateRequest scheduler cache req = .ok ()) {err : KvError}
    (herr : (cache.allocate req.promptLen req.maxNewTokens).1 = .error err) : cache.freeSlots = [] := by
  have hadmitted := validateRequest_eq_ok.mp hvalid
  cases hfree : cache.freeSlots with
  | nil => rfl
  | cons slot rest =>
      have htokens : Usize.checkedAdd req.promptLen req.maxNewTokens =
          some (req.promptLen + req.maxNewTokens) :=
        Usize.checkedAdd_eq_some.mpr ⟨hadmitted.admissible.total_lt, rfl⟩
      have hroom : cache.hasRoomFor req.promptLen req.maxNewTokens = true := by
        unfold SlabKvCache.hasRoomFor
        rw [htokens, hfree]
        simpa using hadmitted.total_le_cache
      unfold SlabKvCache.allocate at herr
      rw [hroom, hfree] at herr
      cases herr

/-- What is known of the candidate before its prefill. -/
theorem untouched_of_prefill {seq : Sequence α} (hfollowing : Following scheduler maxSeqLen s)
    (hpc : s.pc = .prefill seq) :
    Untouched scheduler maxSeqLen s.history.accepted (s.kvCache.stored seq.kvHandle) seq := by
  apply hfollowing.fresh
  rw [hpc]
  exact Option.mem_some_self seq

/-- A decode pass fails in the tensor library only. -/
theorem isTensor_of_forwardPass (hfollowing : Following scheduler maxSeqLen s)
    (hslots : Slots scheduler origin s.pc s.running s.kvCache)
    (hshape : scheduler.model.ShapedFor origin) (hpc : s.pc = .forward) {err : ModelError}
    (herr : (scheduler.model.forward (s.running.map Sequence.decodeInput) s.kvCache).1 =
      .error err) : err.IsTensor := by
  have hrows := rowOk_of_forward hfollowing hslots hshape hpc
  apply SmallTransformer.isTensor_of_forward hslots.wf hslots.nodup_decodeInputs
    hslots.current_decodeInputs _ _ herr
  · exact fun input hinput ↦ (hrows input hinput).1
  · exact fun input hinput ↦ (hrows input hinput).2

/-- So does a prefill, whose prompt is short enough for the model. -/
theorem isTensor_of_prefillPass {seq : Sequence α} (hfollowing : Following scheduler maxSeqLen s)
    (hslots : Slots scheduler origin s.pc s.running s.kvCache)
    (hshape : scheduler.model.ShapedFor origin) (hpc : s.pc = .prefill seq) :
    seq.promptTokens.length ≤ scheduler.model.maxPositions ∧ ∀ err : ModelError,
      (scheduler.model.prefill seq.promptTokens seq.kvHandle s.kvCache).1 = .error err →
        err.IsTensor := by
  obtain ⟨req, -, hadmitted, hseq, hcapacity, -⟩ := untouched_of_prefill hfollowing hpc
  have hprompt : seq.promptTokens = req.promptTokens := by rw [hseq]; rfl
  have hlength : seq.promptTokens.length ≤ scheduler.model.maxPositions := by
    rw [hprompt]
    exact (Nat.le_add_right _ _).trans hadmitted.total_le_positions
  have hcurrent : s.kvCache.IsCurrentHandle seq.kvHandle := hslots.current_candidate (hpc ▸ rfl)
  refine ⟨hlength, fun err herr ↦ ?_⟩
  apply SmallTransformer.isTensor_of_prefill hslots.wf hcurrent hlength _ herr
  intro haccepts
  apply haccepts.prefillOk (shapedFor_of_sameShape hslots.sameShape hshape)
  rw [hcapacity, hprompt]
  exact (Nat.sub_le _ _).trans (Nat.le_add_right _ _)

end Passes

/-- **A validated request never outgrows its capacity.** In every run over a cache of the model's
shape: before a decode pass every sequence of the batch has tokens left to generate, its position is
one of the model's, and its slot holds as many tokens as its position says; after a successful pass
it holds one more, which is at most the capacity of its handle and the maximum of the cache. So a
pass or a prefill fails only in the tensor library, `allocate` fails for a validated request only
when no slot is free, and nothing is ever evicted for its position. -/
theorem never_outgrows_capacity (scheduler : Scheduler α) (maxSeqs maxSeqLen maxDepth : ℕ)
    (capacity : ClientId → ℕ) :
    ∀ s, Reaches scheduler Anything (init (.new maxSeqs maxSeqLen scheduler.model.kvShape.1
        scheduler.model.kvShape.2.1 scheduler.model.kvShape.2.2) maxDepth capacity) s →
      (s.pc = .forward →
        (∀ seq ∈ s.running,
          (∃ req ∈ s.history.accepted, req.client = seq.client ∧
            seq.generatedTokens.length < req.maxNewTokens) ∧
          seq.decodePosition < scheduler.model.maxPositions ∧
          scheduler.model.CachedTokens (s.kvCache.stored seq.kvHandle) seq.decodePosition ∧
          (∀ logits, (forward scheduler s).pc = .checkDone (.delivering 0 logits) →
            scheduler.model.CachedTokens ((forward scheduler s).kvCache.stored seq.kvHandle)
              (seq.decodePosition + 1)) ∧
          seq.decodePosition + 1 ≤ seq.kvHandle.capacityTokens ∧
          seq.kvHandle.capacityTokens ≤ s.kvCache.maxSequenceLen) ∧
        ∀ err, (scheduler.model.forward (s.running.map Sequence.decodeInput) s.kvCache).1 =
          .error err → err.IsTensor) ∧
      (∀ seq, s.pc = .prefill seq →
        scheduler.model.CachedTokens (s.kvCache.stored seq.kvHandle) 0 ∧
        ∀ err, (scheduler.model.prefill seq.promptTokens seq.kvHandle s.kvCache).1 = .error err →
          err.IsTensor) ∧
      (∀ req, validateRequest scheduler s.kvCache req = .ok () → ∀ err,
        (s.kvCache.allocate req.promptLen req.maxNewTokens).1 = .error err →
          s.kvCache.freeSlots = []) ∧
      ∀ index seq, s.pc = .evict index → s.running[index]? = some seq →
        evictAt scheduler index s = s.goto (.evict (index + 1)) := by
  intro s hreach
  have hslots := slots_reachable hreach
  have hfollowing := following_reachable hreach
  have hshape := scheduler.model.shapedFor_new maxSeqs maxSeqLen
  refine ⟨fun hpc ↦ ⟨fun seq hseq ↦ ?_, fun err herr ↦ ?_⟩, fun seq hpc ↦ ?_,
    fun req hvalid err herr ↦ freeSlots_of_allocate_error hvalid herr,
    fun index seq hpc hseq ↦ evictAt_of_following hfollowing hslots hpc hseq⟩
  · obtain ⟨hdone, req, hreq, turns, hfollows, hcached⟩ :=
      exists_follows_of_forward hfollowing hslots hpc hseq
    have hmaxLen : s.kvCache.maxSequenceLen = maxSeqLen := hslots.sameShape.maxSeqLen_eq
    rw [hmaxLen]
    exact ⟨⟨req, hreq, hfollows.client_eq.symm, hfollows.generated_lt hdone⟩,
      hfollows.position_lt_maxPositions hdone, hcached,
      fun logits hsucceeds ↦ cachedTokens_forward hfollowing hslots hpc hsucceeds hseq,
      hfollows.next_le_capacity hdone, hfollows.capacity_le⟩
  · exact isTensor_of_forwardPass hfollowing hslots hshape hpc herr
  · refine ⟨?_, (isTensor_of_prefillPass hfollowing hslots hshape hpc).2⟩
    obtain ⟨req, -, -, -, -, hempty⟩ := untouched_of_prefill hfollowing hpc
    intro layer _
    unfold storedTokens
    rw [hempty]
    rfl

theorem never_outgrows_capacity_tinyReused :
    tinyReused.running.length = 2 ∧ ∀ seq ∈ tinyReused.running, seq.decodePosition < 8 ∧
      seq.decodePosition + 1 ≤ seq.kvHandle.capacityTokens := by
  have hpc : tinyReused.pc = .forward := Pc.eq_forward (by decide +kernel)
  refine ⟨by decide +kernel, fun seq hseq ↦ ?_⟩
  obtain ⟨-, hposition, -, -, hcapacity, -⟩ := ((never_outgrows_capacity tinyGpt2Scheduler 2 8 4
    (fun _ ↦ 5) tinyReused reaches_tinyReused).1 hpc).1 seq hseq
  exact ⟨hposition, hcapacity⟩

end Scheduler

end HotBatch
