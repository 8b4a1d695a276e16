import HotBatch.Core.CacheEffects

/-!
# A GPT-2 decode pass, one sequence at a time

A decode pass works through the layers for all its sequences at once and interleaves their reads and
writes of the shared cache. Seen from one sequence it is a function, `Gpt2Model.decodeRow`, of that
sequence's token, position and stored tensors alone. The pass succeeds exactly when every row is in
order on its own, and it then gives every sequence its private result.
-/

namespace HotBatch

variable {α : Type} [Kernels α]

/-! ## One layer -/

namespace Gpt2Attention

variable (attn : Gpt2Attention α)

/-- The tensors of one sequence after one more token. -/
def extend (past : Option (KvTensor α × KvTensor α)) (qkv : Qkv α) : KvTensor α × KvTensor α :=
  (attn.toKv (((past.map fun entry ↦ entry.1.rows).getD []) ++ [qkv.key]),
    attn.toKv (((past.map fun entry ↦ entry.2.rows).getD []) ++ [qkv.value]))

/-- The context that one sequence computes for its new token. -/
def decodeContext (past : Option (KvTensor α × KvTensor α)) (qkv : Qkv α) : Row α :=
  attn.context (fun _ ↦ false) qkv.query (attn.extend past qkv).1.rows (attn.extend past qkv).2.rows

omit [Kernels α] in
theorem length_extend (past : KvStore α) (layer : ℕ) (qkv : Qkv α) :
    (attn.extend (past layer) qkv).1.rows.length = storedTokens past layer + 1 := by
  unfold extend storedTokens toKv
  cases past layer <;> simp

/-- The next token of a sequence fits into its slot at this layer. -/
def NextFits (cache : SlabKvCache (KvTensor α)) (layer : ℕ) (handle : KvHandle) : Prop :=
  Fits cache attn.nHead attn.headDim layer handle (storedTokens (cache.stored handle) layer + 1)

variable {attn} {cache : SlabKvCache (KvTensor α)} {layer : ℕ} {handle : KvHandle} {qkv : Qkv α}

/-- What is stored for a handle has the cache's shape, and as many keys as values. -/
theorem stored_shape (hwf : cache.Wf) {entry : KvTensor α × KvTensor α}
    (hstored : cache.stored handle layer = some entry) :
    entry.1.nHeads = cache.nHeads ∧ entry.1.headDim = cache.headDim ∧
    entry.2.nHeads = cache.nHeads ∧ entry.2.headDim = cache.headDim ∧
    entry.2.rows.length = entry.1.rows.length := by
  obtain ⟨tokens, -, hk, hv⟩ := hwf.stored_fits handle layer entry hstored
  simp only [CacheTensor.dims, List.cons.injEq, and_true] at hk hv
  exact ⟨hk.1, hk.2.2, hv.1, hv.2.2, hv.2.1.trans hk.2.1.symm⟩

theorem length_extend_values (hwf : cache.Wf) :
    (attn.extend (cache.stored handle layer) qkv).2.rows.length =
      (attn.extend (cache.stored handle layer) qkv).1.rows.length := by
  unfold extend toKv
  cases hstored : cache.stored handle layer with
  | none => rfl
  | some entry => simp [(stored_shape hwf hstored).2.2.2.2]

theorem confined_decodeOne {handles : List KvHandle} (hmem : handle ∈ handles) :
    KvM.Confined handles (attn.decodeOne layer handle qkv) := by
  unfold decodeOne
  apply KvM.confined_bind (KvM.confined_read handle layer)
  intro past
  apply KvM.confined_bind (KvM.confined_ofExcept _)
  intro total
  apply KvM.confined_bind (KvM.confined_write hmem layer _ _)
  intro _
  exact KvM.confined_pure _

/-- Joining the past read from the cache with a new token, when the shapes agree. -/
theorem joined_of_shape (hwf : cache.Wf)
    (hheads : attn.nHead = cache.nHeads) (hdim : attn.headDim = cache.headDim) :
    attn.joined ((cache.stored handle layer).getD (CacheTensor.zeros cache.nHeads 0 cache.headDim,
      CacheTensor.zeros cache.nHeads 0 cache.headDim)) qkv =
        .ok (attn.extend (cache.stored handle layer) qkv) := by
  cases hstored : cache.stored handle layer with
  | none => rfl
  | some entry =>
      obtain ⟨hkHeads, hkDim, hvHeads, hvDim, hlen⟩ := stored_shape hwf hstored
      have hcat : ∀ (past : KvTensor α) (row : Row α), past.nHeads = cache.nHeads →
          past.headDim = cache.headDim →
          cat past (attn.toKv [row]) = .ok (attn.toKv (past.rows ++ [row])) := by
        intro past row hpastHeads hpastDim
        exact if_pos ⟨hpastHeads.trans hheads.symm, hpastDim.trans hdim.symm⟩
      rw [Option.getD_some]
      unfold joined
      by_cases hempty : entry.1.rows.length = 0
      · have hk : entry.1.rows = [] := List.length_eq_zero_iff.mp hempty
        have hv : entry.2.rows = [] := List.length_eq_zero_iff.mp (hlen.trans hempty)
        rw [if_pos hempty]
        simp [extend, hk, hv]
      · rw [if_neg hempty, hcat _ _ hkHeads hkDim, hcat _ _ hvHeads hvDim]
        rfl

theorem cat_eq_ok {past current total : KvTensor α} (hok : cat past current = .ok total) :
    total = ⟨current.nHeads, current.headDim, past.rows ++ current.rows⟩ := by
  unfold cat at hok
  split_ifs at hok
  exact (Except.ok.inj hok).symm

/-- Whenever joining succeeds at all, it has the model's shape and one more token. -/
theorem joined_eq_ok {past total : KvTensor α × KvTensor α} (hok : attn.joined past qkv = .ok total) :
    ∃ k v, total = (attn.toKv k, attn.toKv v) ∧ k.length = past.1.rows.length + 1 := by
  unfold joined at hok
  by_cases hempty : past.1.rows.length = 0
  · rw [if_pos hempty] at hok
    obtain rfl := Except.ok.inj hok
    exact ⟨[qkv.key], [qkv.value], rfl, by rw [hempty]; rfl⟩
  · rw [if_neg hempty] at hok
    cases hk : cat past.1 (attn.toKv [qkv.key]) with
    | error err => simp [hk, bind, Except.bind] at hok
    | ok k =>
        cases hv : cat past.2 (attn.toKv [qkv.value]) with
        | error err => simp [hk, hv, bind, Except.bind] at hok
        | ok v =>
            simp only [hk, hv, bind, Except.bind, pure, Except.pure, Except.ok.injEq] at hok
            refine ⟨past.1.rows ++ [qkv.key], past.2.rows ++ [qkv.value], ?_, List.length_append⟩
            rw [← hok, cat_eq_ok hk, cat_eq_ok hv]
            rfl

/-- A token that fits is decoded from the sequence's own past. -/
theorem decodeOne_of_fits (qkv : Qkv α) (hwf : cache.Wf) (hcurrent : cache.IsCurrentHandle handle)
    (hfits : attn.NextFits cache layer handle) :
    ∃ cache', attn.decodeOne layer handle qkv cache =
        (.ok (attn.decodeContext (cache.stored handle layer) qkv), cache') ∧
      KvM.Stores cache cache' handle layer (attn.extend (cache.stored handle layer) qkv) := by
  have hread : KvM.read handle layer cache = (.ok ((cache.stored handle layer).getD
      (CacheTensor.zeros cache.nHeads 0 cache.headDim,
        CacheTensor.zeros cache.nHeads 0 cache.headDim)), cache) := by
    unfold KvM.read
    rw [SlabKvCache.read_of_current hwf hcurrent hfits.layer_lt]
    rfl
  have htotal : Fits cache attn.nHead attn.headDim layer handle
      (attn.extend (cache.stored handle layer) qkv).1.rows.length := by
    rw [length_extend]
    exact hfits
  obtain ⟨cache', hwrite, hstores⟩ :=
    KvM.write_of_fits hwf hcurrent (length_extend_values hwf) htotal
  refine ⟨cache', ?_, hstores⟩
  unfold decodeOne
  rw [KvM.bind_ok hread, joined_of_shape hwf hfits.heads_eq hfits.headDim_eq]
  exact KvM.bind_ok hwrite

/-- A token that does not fit is an error. -/
theorem decodeOne_of_not_fits (qkv : Qkv α) (hwf : cache.Wf) (hcurrent : cache.IsCurrentHandle handle)
    (hfits : ¬ attn.NextFits cache layer handle) :
    ∃ err, (attn.decodeOne layer handle qkv cache).1 = .error err := by
  unfold decodeOne
  by_cases hlayer : layer < cache.numLayers
  swap
  · have hread : KvM.read handle layer cache =
        (.error (.kv (.layerOutOfRange layer cache.numLayers)), cache) := by
      unfold KvM.read
      rw [SlabKvCache.read_of_numLayers_le hcurrent (Nat.not_lt.mp hlayer)]
      rfl
    rw [KvM.bind_error hread]
    exact ⟨_, rfl⟩
  have hpast := SlabKvCache.read_of_current hwf hcurrent hlayer
  generalize hentry : (cache.stored handle layer).getD (CacheTensor.zeros cache.nHeads 0 cache.headDim,
    CacheTensor.zeros cache.nHeads 0 cache.headDim) = past at hpast
  have hread : KvM.read handle layer cache = (.ok past, cache) := by
    unfold KvM.read
    rw [hpast]
    rfl
  have htokens : past.1.rows.length = storedTokens (cache.stored handle) layer := by
    rw [← hentry]
    unfold storedTokens
    cases cache.stored handle layer <;> rfl
  rw [KvM.bind_ok hread]
  cases hjoined : attn.joined past qkv with
  | error err => exact ⟨err, rfl⟩
  | ok total =>
      obtain ⟨k, v, rfl, hlen⟩ := joined_eq_ok hjoined
      have hrefused : ¬ Fits cache attn.nHead attn.headDim layer handle k.length := by
        rw [hlen, htokens]
        exact hfits
      obtain ⟨err, hwrite⟩ := KvM.write_of_not_fits (v := v) hrefused
      refine ⟨err, ?_⟩
      exact congrArg Prod.fst (KvM.bind_error hwrite)

theorem confined_decodeRows {handles : List KvHandle} (rows : List (KvHandle × Qkv α))
    (hmem : ∀ row ∈ rows, row.1 ∈ handles) :
    KvM.Confined handles (attn.decodeRows layer rows) := by
  induction rows with
  | nil => exact KvM.confined_pure _
  | cons row rows ih =>
      unfold decodeRows
      apply KvM.confined_bind (confined_decodeOne (hmem row List.mem_cons_self))
      intro context
      apply KvM.confined_bind (ih fun other hother ↦ hmem other (List.mem_cons_of_mem _ hother))
      intro contexts
      exact KvM.confined_pure _

/-- Decoding the other rows of the batch first makes no difference to whether a row fits. -/
theorem nextFits_iff_of_stores {cache' : SlabKvCache (KvTensor α)} {other : KvHandle}
    {entry : KvTensor α × KvTensor α} (hstores : KvM.Stores cache cache' handle layer entry)
    (hne : other ≠ handle) (index : ℕ) :
    attn.NextFits cache' index other ↔ attn.NextFits cache index other := by
  have hsame := hstores.confined.stored_eq other (by simpa using hne)
  unfold NextFits
  rw [hsame]
  exact hstores.confined.fits_iff _ _ _ _ _

/-- Every row of a batch that fits is decoded from its own past, whatever its neighbours are. -/
theorem decodeRows_of_fits (attn : Gpt2Attention α) (layer : ℕ) (rows : List (KvHandle × Qkv α)) (cache : SlabKvCache (KvTensor α))
    (hwf : cache.Wf) (hnodup : (rows.map Prod.fst).Nodup)
    (hcurrent : ∀ row ∈ rows, cache.IsCurrentHandle row.1)
    (hfits : ∀ row ∈ rows, attn.NextFits cache layer row.1) :
    ∃ cache', attn.decodeRows layer rows cache =
        (.ok (rows.map fun row ↦ attn.decodeContext (cache.stored row.1 layer) row.2), cache') ∧
      ConfinedTo (rows.map Prod.fst) cache cache' ∧
      ∀ row ∈ rows, cache'.stored row.1 = Function.update (cache.stored row.1) layer
        (some (attn.extend (cache.stored row.1 layer) row.2)) := by
  induction rows generalizing cache with
  | nil => exact ⟨cache, rfl, .refl hwf, fun _ hrow ↦ nomatch hrow⟩
  | cons row rows ih =>
      obtain ⟨hnotMem, hnodup⟩ := List.nodup_cons.mp hnodup
      have hne : ∀ other ∈ rows, other.1 ≠ row.1 := fun other hother heq ↦
        hnotMem (heq ▸ List.mem_map_of_mem hother)
      obtain ⟨middle, hfirst, hstores⟩ := decodeOne_of_fits row.2 hwf
        (hcurrent row List.mem_cons_self) (hfits row List.mem_cons_self)
      have hsame : ∀ other ∈ rows, middle.stored other.1 = cache.stored other.1 := fun other hother ↦
        hstores.confined.stored_eq _ (by simpa using hne other hother)
      obtain ⟨cache', hrest, hconfined, hstored⟩ := ih middle hstores.confined.wf hnodup
        (fun other hother ↦ (hstores.confined.isCurrentHandle_iff _).mpr
          (hcurrent other (List.mem_cons_of_mem _ hother)))
        (fun other hother ↦ (nextFits_iff_of_stores hstores (hne other hother) layer).mpr
          (hfits other (List.mem_cons_of_mem _ hother)))
      refine ⟨cache', ?_, ?_, ?_⟩
      · have hmap : rows.map (fun other ↦ attn.decodeContext (middle.stored other.1 layer) other.2) =
            rows.map fun other ↦ attn.decodeContext (cache.stored other.1 layer) other.2 :=
          List.map_congr_left fun other hother ↦ by rw [hsame other hother]
        rw [hmap] at hrest
        unfold decodeRows
        rw [KvM.bind_ok hfirst, KvM.bind_ok hrest]
        rfl
      · exact (hstores.confined.mono (by simp)).trans (hconfined.mono (List.subset_cons_self _ _))
      · intro other hother
        rcases List.mem_cons.mp hother with rfl | hother
        · rw [hconfined.stored_eq _ hnotMem]
          exact hstores.stored_eq
        · rw [hstored other hother, hsame other hother]

/-- A single row that does not fit makes the whole batch fail. -/
theorem decodeRows_of_not_fits (attn : Gpt2Attention α) (layer : ℕ) (rows : List (KvHandle × Qkv α)) (cache : SlabKvCache (KvTensor α))
    (hwf : cache.Wf) (hnodup : (rows.map Prod.fst).Nodup)
    (hcurrent : ∀ row ∈ rows, cache.IsCurrentHandle row.1)
    (hfits : ∃ row ∈ rows, ¬ attn.NextFits cache layer row.1) :
    ∃ err, (attn.decodeRows layer rows cache).1 = .error err := by
  induction rows generalizing cache with
  | nil =>
      obtain ⟨_, hrow, -⟩ := hfits
      cases hrow
  | cons row rows ih =>
      obtain ⟨hnotMem, hnodup⟩ := List.nodup_cons.mp hnodup
      by_cases hfirstFits : attn.NextFits cache layer row.1
      · obtain ⟨middle, hfirst, hstores⟩ := decodeOne_of_fits row.2 hwf
          (hcurrent row List.mem_cons_self) hfirstFits
        obtain ⟨bad, hbad, hbadFits⟩ := hfits
        have hbadRest : bad ∈ rows := by
          rcases List.mem_cons.mp hbad with rfl | hrest
          · exact absurd hfirstFits hbadFits
          · exact hrest
        have hne : bad.1 ≠ row.1 := fun heq ↦ hnotMem (heq ▸ List.mem_map_of_mem hbadRest)
        obtain ⟨err, hrest⟩ := ih middle hstores.confined.wf hnodup
          (fun other hother ↦ (hstores.confined.isCurrentHandle_iff _).mpr
            (hcurrent other (List.mem_cons_of_mem _ hother)))
          ⟨bad, hbadRest, (nextFits_iff_of_stores hstores hne layer).not.mpr hbadFits⟩
        refine ⟨err, ?_⟩
        unfold decodeRows
        rw [KvM.bind_ok hfirst, KvM.bind_error (Prod.ext hrest rfl)]
      · obtain ⟨err, hfirst⟩ := decodeOne_of_not_fits row.2 hwf
          (hcurrent row List.mem_cons_self) hfirstFits
        refine ⟨err, ?_⟩
        unfold decodeRows
        rw [KvM.bind_error (Prod.ext hfirst rfl)]

/-- On one new position per sequence, `decode_attention` is its loop. -/
theorem decodeAttention_singletons {ι : Type} (layer : ℕ) (rows : List ι) (hne : rows ≠ [])
    (handleOf : ι → KvHandle) (qkvOf : ι → Qkv α) :
    attn.decodeAttention (rows.map fun row ↦ [qkvOf row]) layer (rows.map handleOf) =
      (attn.decodeRows layer (rows.map fun row ↦ (handleOf row, qkvOf row)) >>= fun contexts ↦
        pure (contexts.map fun context ↦ [context])) := by
  have hseq : (((rows.map fun row ↦ [qkvOf row]).head?.map List.length).getD 0) = 1 := by
    obtain ⟨row, rest, rfl⟩ := List.exists_cons_of_ne_nil hne
    rfl
  have hflat : (rows.map fun row ↦ [qkvOf row]).flatten = rows.map qkvOf := by
    rw [← List.flatMap_def, ← List.map_eq_flatMap]
  have hzip : (rows.map handleOf).zip (rows.map qkvOf) =
      rows.map fun row ↦ (handleOf row, qkvOf row) := by
    rw [List.zip_map']
  unfold decodeAttention
  simp only [hseq, hflat, hzip, List.length_map, ne_eq, not_true_eq_false, if_false]

theorem confined_prefillAttention (qkv : List (List (Qkv α))) (layer : ℕ)
    (handles : List KvHandle) : KvM.Confined handles (attn.prefillAttention qkv layer handles) := by
  unfold prefillAttention
  split
  · split
    · exact KvM.confined_throw _
    · apply KvM.confined_bind (KvM.confined_write List.mem_cons_self layer _ _)
      intro _
      exact KvM.confined_pure _
  · exact KvM.confined_throw _

theorem confined_decodeAttention (qkv : List (List (Qkv α))) (layer : ℕ)
    (handles : List KvHandle) : KvM.Confined handles (attn.decodeAttention qkv layer handles) := by
  unfold decodeAttention
  dsimp only
  split_ifs
  · exact KvM.confined_throw _
  · exact KvM.confined_throw _
  · apply KvM.confined_bind
    · exact confined_decodeRows _ fun row hrow ↦ (List.of_mem_zip hrow).1
    · intro contexts
      exact KvM.confined_pure _

theorem confined_forward (xs : List (List (Row α))) (layer : ℕ) (handles : List KvHandle)
    (prefill : Bool) : KvM.Confined handles (attn.forward xs layer handles prefill) := by
  unfold forward
  apply KvM.confined_bind
  · unfold attention
    split
    · exact confined_prefillAttention _ _ _
    · exact confined_decodeAttention _ _ _
  · intro contexts
    exact KvM.confined_pure _

end Gpt2Attention

namespace Gpt2Block

variable {block : Gpt2Block α}

theorem confined_forward (xs : List (List (Row α))) (layer : ℕ) (handles : List KvHandle)
    (prefill : Bool) : KvM.Confined handles (block.forward xs layer handles prefill) := by
  unfold forward
  apply KvM.confined_bind (Gpt2Attention.confined_forward _ _ _ _)
  intro attended
  exact KvM.confined_pure _

/-- What the block computes for one sequence: the new hidden row, and the tensors to store. -/
def decodeRow (block : Gpt2Block α) (past : Option (KvTensor α × KvTensor α)) (x : Row α) :
    Row α × (KvTensor α × KvTensor α) :=
  let qkv := block.attn.project (block.ln1.forward x)
  (block.finish (block.attn.cProj.forward (block.attn.decodeContext past qkv)) x,
    block.attn.extend past qkv)

/-- The rows of a batch as `decode_attention` sees them. -/
def attentionRows (block : Gpt2Block α) (rows : List (KvHandle × Row α)) :
    List (KvHandle × Qkv α) :=
  rows.map fun row ↦ (row.1, block.attn.project (block.ln1.forward row.2))

/-- A block in a decode pass is the loop of `decode_attention` between operations on single rows. -/
theorem forward_decode (layer : ℕ) (rows : List (KvHandle × Row α)) (hne : rows ≠ []) :
    block.forward (rows.map fun row ↦ [row.2]) layer (rows.map Prod.fst) false =
      (block.attn.decodeRows layer (block.attentionRows rows) >>= fun contexts ↦
        pure (List.zipWith (fun context row ↦ [block.finish (block.attn.cProj.forward context) row.2])
          contexts rows)) := by
  have hinput : (rows.map fun row ↦ [row.2]).map (·.map block.ln1.forward) =
      rows.map fun row ↦ [block.ln1.forward row.2] := by
    simp [Function.comp_def]
  have hqkv : (rows.map fun row ↦ [block.ln1.forward row.2]).map (·.map block.attn.project) =
      rows.map fun row ↦ [block.attn.project (block.ln1.forward row.2)] := by
    simp [Function.comp_def]
  unfold forward Gpt2Attention.forward Gpt2Attention.attention
  rw [hinput]
  simp only [hqkv, Bool.false_eq_true, if_false, bind_assoc, pure_bind]
  rw [Gpt2Attention.decodeAttention_singletons layer rows hne Prod.fst]
  simp only [bind_assoc, pure_bind, attentionRows]
  congr 1
  funext contexts
  congr 1
  simp [List.zipWith_map_left, List.zipWith_map_right]

variable {cache : SlabKvCache (KvTensor α)} {layer : ℕ}

theorem forward_of_fits (rows : List (KvHandle × Row α)) (hne : rows ≠ []) (hwf : cache.Wf)
    (hnodup : (rows.map Prod.fst).Nodup) (hcurrent : ∀ row ∈ rows, cache.IsCurrentHandle row.1)
    (hfits : ∀ row ∈ rows, block.attn.NextFits cache layer row.1) :
    ∃ cache', block.forward (rows.map fun row ↦ [row.2]) layer (rows.map Prod.fst) false cache =
        (.ok (rows.map fun row ↦ [(block.decodeRow (cache.stored row.1 layer) row.2).1]), cache') ∧
      ConfinedTo (rows.map Prod.fst) cache cache' ∧
      ∀ row ∈ rows, cache'.stored row.1 = Function.update (cache.stored row.1) layer
        (some (block.decodeRow (cache.stored row.1 layer) row.2).2) := by
  have hhandles : (block.attentionRows rows).map Prod.fst = rows.map Prod.fst := by
    simp [attentionRows, Function.comp_def]
  obtain ⟨cache', hrun, hconfined, hstored⟩ := Gpt2Attention.decodeRows_of_fits block.attn layer
    (block.attentionRows rows) cache hwf (hhandles ▸ hnodup)
    (List.forall_mem_map.mpr hcurrent) (List.forall_mem_map.mpr hfits)
  rw [hhandles] at hconfined
  refine ⟨cache', ?_, hconfined, ?_⟩
  · rw [forward_decode layer rows hne, KvM.bind_ok hrun]
    simp only [attentionRows, List.map_map, List.zipWith_map_left, List.zipWith_self]
    rfl
  · intro row hrow
    exact hstored (row.1, block.attn.project (block.ln1.forward row.2)) (List.mem_map_of_mem hrow)

theorem forward_of_not_fits (rows : List (KvHandle × Row α)) (hwf : cache.Wf)
    (hnodup : (rows.map Prod.fst).Nodup) (hcurrent : ∀ row ∈ rows, cache.IsCurrentHandle row.1)
    (hfits : ∃ row ∈ rows, ¬ block.attn.NextFits cache layer row.1) :
    ∃ err, (block.forward (rows.map fun row ↦ [row.2]) layer (rows.map Prod.fst) false cache).1 =
      .error err := by
  have hhandles : (block.attentionRows rows).map Prod.fst = rows.map Prod.fst := by
    simp [attentionRows, Function.comp_def]
  obtain ⟨bad, hbad, hbadFits⟩ := hfits
  obtain ⟨err, hrun⟩ := Gpt2Attention.decodeRows_of_not_fits block.attn layer
    (block.attentionRows rows) cache hwf (hhandles ▸ hnodup)
    (List.forall_mem_map.mpr hcurrent)
    ⟨_, List.mem_map_of_mem hbad, hbadFits⟩
  refine ⟨err, ?_⟩
  rw [forward_decode layer rows (List.ne_nil_of_mem hbad), KvM.bind_error (Prod.ext hrun rfl)]

end Gpt2Block

/-! ## A whole GPT-2 decode pass -/

/-- The next token of a sequence fits at `count` layers from `first` on. -/
def LayersFit (cache : SlabKvCache (KvTensor α)) (heads headDim first count : ℕ)
    (handle : KvHandle) : Prop :=
  ∀ layer, first ≤ layer → layer < first + count →
    Fits cache heads headDim layer handle (storedTokens (cache.stored handle) layer + 1)

namespace Gpt2Model

/-- The blocks from layer `layer` on, for one sequence. -/
def decodeBlocks : ℕ → List (Gpt2Block α) → KvStore α → Row α → Row α × KvStore α
  | _, [], store, x => (x, store)
  | layer, block :: blocks, store, x =>
      let result := block.decodeRow (store layer) x
      decodeBlocks (layer + 1) blocks (Function.update store layer (some result.2)) result.1

theorem confined_forwardBlocks (handles : List KvHandle) (prefill : Bool) (layer : ℕ)
    (blocks : List (Gpt2Block α)) (xs : List (List (Row α))) :
    KvM.Confined handles (forwardBlocks handles prefill layer blocks xs) := by
  induction blocks generalizing layer xs with
  | nil => exact KvM.confined_pure _
  | cons block blocks ih =>
      unfold forwardBlocks
      apply KvM.confined_bind (Gpt2Block.confined_forward _ _ _ _)
      intro xs
      exact ih (layer + 1) xs

section Blocks

variable {heads headDim : ℕ}

/-- A layer that has been processed changes nothing about the layers after it. -/
theorem layersFit_succ {before after : SlabKvCache (KvTensor α)} {handles : List KvHandle}
    {handle : KvHandle} {layer count : ℕ} {entry : KvTensor α × KvTensor α}
    (hconfined : ConfinedTo handles before after)
    (hstored : after.stored handle = Function.update (before.stored handle) layer (some entry)) :
    LayersFit after heads headDim (layer + 1) count handle ↔
      LayersFit before heads headDim (layer + 1) count handle := by
  refine forall_congr' fun index ↦ imp_congr_right fun hle ↦ imp_congr_right fun _ ↦ ?_
  have hsame : storedTokens (after.stored handle) index = storedTokens (before.stored handle) index := by
    unfold storedTokens
    rw [hstored, Function.update_of_ne (by omega)]
  rw [hsame]
  exact hconfined.fits_iff _ _ _ _ _

/-- The rows of a batch after a block, still with their handles. -/
def rowsAfter (block : Gpt2Block α) (cache : SlabKvCache (KvTensor α)) (layer : ℕ)
    (rows : List (KvHandle × Row α)) : List (KvHandle × Row α) :=
  rows.map fun row ↦ (row.1, (block.decodeRow (cache.stored row.1 layer) row.2).1)

@[simp]
theorem map_fst_rowsAfter (block : Gpt2Block α) (cache : SlabKvCache (KvTensor α)) (layer : ℕ)
    (rows : List (KvHandle × Row α)) :
    (rowsAfter block cache layer rows).map Prod.fst = rows.map Prod.fst := by
  simp [rowsAfter, Function.comp_def]

/-- When its next token fits for every sequence, a block hands its rows to the blocks behind it. -/
theorem forwardBlocks_cons {block : Gpt2Block α} (blocks : List (Gpt2Block α)) {layer : ℕ}
    {rows : List (KvHandle × Row α)} {cache : SlabKvCache (KvTensor α)} (hne : rows ≠ [])
    (hwf : cache.Wf) (hnodup : (rows.map Prod.fst).Nodup)
    (hcurrent : ∀ row ∈ rows, cache.IsCurrentHandle row.1)
    (hnext : ∀ row ∈ rows, block.attn.NextFits cache layer row.1) :
    ∃ middle, forwardBlocks (rows.map Prod.fst) false layer (block :: blocks)
          (rows.map fun row ↦ [row.2]) cache =
        forwardBlocks (rows.map Prod.fst) false (layer + 1) blocks
          ((rowsAfter block cache layer rows).map fun row ↦ [row.2]) middle ∧
      ConfinedTo (rows.map Prod.fst) cache middle ∧
      (∀ row ∈ rows, middle.stored row.1 = Function.update (cache.stored row.1) layer
        (some (block.decodeRow (cache.stored row.1 layer) row.2).2)) ∧
      ∀ row ∈ rowsAfter block cache layer rows, middle.IsCurrentHandle row.1 := by
  obtain ⟨middle, hfirst, hconfined, hstored⟩ :=
    Gpt2Block.forward_of_fits rows hne hwf hnodup hcurrent hnext
  refine ⟨middle, ?_, hconfined, hstored, ?_⟩
  · have hinput : ((rowsAfter block cache layer rows).map fun row ↦ [row.2]) =
        rows.map fun row ↦ [(block.decodeRow (cache.stored row.1 layer) row.2).1] := by
      simp [rowsAfter, Function.comp_def]
    rw [hinput]
    exact KvM.bind_ok hfirst
  · exact List.forall_mem_map.mpr fun row hrow ↦
      (hconfined.isCurrentHandle_iff _).mpr (hcurrent row hrow)

/-- **Layers of a batch are layers of its sequences.** When every sequence fits on its own, the
interleaved pass gives each of them what it would have computed alone. -/
theorem forwardBlocks_of_fits (blocks : List (Gpt2Block α))
    (hshape : ∀ block ∈ blocks, block.attn.nHead = heads ∧ block.attn.headDim = headDim)
    (layer : ℕ) (rows : List (KvHandle × Row α)) (hne : rows ≠ [])
    (cache : SlabKvCache (KvTensor α)) (hwf : cache.Wf) (hnodup : (rows.map Prod.fst).Nodup)
    (hcurrent : ∀ row ∈ rows, cache.IsCurrentHandle row.1)
    (hfits : ∀ row ∈ rows, LayersFit cache heads headDim layer blocks.length row.1) :
    ∃ cache', forwardBlocks (rows.map Prod.fst) false layer blocks (rows.map fun row ↦ [row.2])
          cache =
        (.ok (rows.map fun row ↦
          [(decodeBlocks layer blocks (cache.stored row.1) row.2).1]), cache') ∧
      ConfinedTo (rows.map Prod.fst) cache cache' ∧
      ∀ row ∈ rows, cache'.stored row.1 =
        (decodeBlocks layer blocks (cache.stored row.1) row.2).2 := by
  induction blocks generalizing layer rows cache with
  | nil => exact ⟨cache, rfl, .refl hwf, fun _ _ ↦ rfl⟩
  | cons block blocks ih =>
      obtain ⟨hheads, hdim⟩ := hshape block List.mem_cons_self
      have hnext : ∀ row ∈ rows, block.attn.NextFits cache layer row.1 := by
        intro row hrow
        unfold Gpt2Attention.NextFits
        rw [hheads, hdim]
        exact hfits row hrow layer (Nat.le_refl _) (by simp)
      obtain ⟨middle, hfirst, hconfined, hstored, hcurrent'⟩ :=
        forwardBlocks_cons blocks hne hwf hnodup hcurrent hnext
      have hfits' : ∀ row ∈ rows, LayersFit middle heads headDim (layer + 1) blocks.length row.1 := by
        intro row hrow
        rw [layersFit_succ hconfined (hstored row hrow)]
        intro index hle hlt
        apply hfits row hrow index (by omega)
        rw [List.length_cons]
        omega
      obtain ⟨cache', hrest, hconfined', hstored'⟩ := ih
        (fun other hother ↦ hshape other (List.mem_cons_of_mem _ hother)) (layer + 1)
        (rowsAfter block cache layer rows) (by simpa [rowsAfter] using hne) middle hconfined.wf
        ((map_fst_rowsAfter block cache layer rows).symm ▸ hnodup) hcurrent'
        (List.forall_mem_map.mpr hfits')
      rw [map_fst_rowsAfter] at hrest hconfined'
      refine ⟨cache', ?_, hconfined.trans hconfined', ?_⟩
      · rw [hfirst, hrest, rowsAfter, List.map_map]
        congr 2
        apply List.map_congr_left
        intro row hrow
        simp only [Function.comp_apply, hstored row hrow, decodeBlocks]
      · intro row hrow
        rw [hstored' _ (List.mem_map_of_mem hrow), hstored row hrow, decodeBlocks]

/-- A sequence that does not fit at some layer makes the pass fail. -/
theorem forwardBlocks_of_not_fits (blocks : List (Gpt2Block α))
    (hshape : ∀ block ∈ blocks, block.attn.nHead = heads ∧ block.attn.headDim = headDim)
    (layer : ℕ) (rows : List (KvHandle × Row α)) (cache : SlabKvCache (KvTensor α)) (hwf : cache.Wf)
    (hnodup : (rows.map Prod.fst).Nodup) (hcurrent : ∀ row ∈ rows, cache.IsCurrentHandle row.1)
    (hfits : ∃ row ∈ rows, ¬ LayersFit cache heads headDim layer blocks.length row.1) :
    ∃ err, (forwardBlocks (rows.map Prod.fst) false layer blocks (rows.map fun row ↦ [row.2])
      cache).1 = .error err := by
  induction blocks generalizing layer rows cache with
  | nil =>
      obtain ⟨row, -, hbad⟩ := hfits
      refine absurd ?_ hbad
      intro index hle hlt
      rw [List.length_nil] at hlt
      omega
  | cons block blocks ih =>
      obtain ⟨hheads, hdim⟩ := hshape block List.mem_cons_self
      obtain ⟨bad, hbad, hbadFits⟩ := hfits
      have hne := List.ne_nil_of_mem hbad
      by_cases hnext : ∀ row ∈ rows, block.attn.NextFits cache layer row.1
      · obtain ⟨middle, hfirst, hconfined, hstored, hcurrent'⟩ :=
          forwardBlocks_cons blocks hne hwf hnodup hcurrent hnext
        have hlater : ¬ LayersFit middle heads headDim (layer + 1) blocks.length bad.1 := by
          rw [layersFit_succ hconfined (hstored bad hbad)]
          intro hall
          apply hbadFits
          intro index hle hlt
          rcases Nat.eq_or_lt_of_le hle with rfl | hgt
          · have hfit := hnext bad hbad
            unfold Gpt2Attention.NextFits at hfit
            rwa [hheads, hdim] at hfit
          · rw [List.length_cons] at hlt
            exact hall index hgt (by omega)
        obtain ⟨err, hrest⟩ := ih
          (fun other hother ↦ hshape other (List.mem_cons_of_mem _ hother)) (layer + 1)
          (rowsAfter block cache layer rows) middle hconfined.wf
          ((map_fst_rowsAfter block cache layer rows).symm ▸ hnodup) hcurrent'
          ⟨_, List.mem_map_of_mem hbad, hlater⟩
        rw [map_fst_rowsAfter] at hrest
        exact ⟨err, by rw [hfirst, hrest]⟩
      · push Not at hnext
        obtain ⟨err, hfirst⟩ := Gpt2Block.forward_of_not_fits rows hwf hnodup hcurrent hnext
        unfold forwardBlocks
        exact ⟨err, by rw [KvM.bind_error (Prod.ext hfirst rfl)]⟩

end Blocks

/-- The row of an embedding table that an id in range selects. -/
def rowOf (embedding : Embedding α) (token : Token) : Row α := embedding.rows.getD token.toNat []

theorem lookup_of_lt {embedding : Embedding α} {token : Token}
    (hlt : token.toNat < embedding.rows.length) :
    embedding.lookup token = .ok (rowOf embedding token) := by
  unfold Embedding.lookup rowOf
  rw [List.getD_eq_getElem?_getD, List.getElem?_eq_getElem hlt, Option.getD_some]

theorem lookup_of_le {embedding : Embedding α} {token : Token}
    (hle : embedding.rows.length ≤ token.toNat) : ∃ err, embedding.lookup token = .error err := by
  unfold Embedding.lookup
  rw [List.getElem?_eq_none hle]
  exact ⟨_, rfl⟩

/-- Looking up a sequence succeeds exactly when all its ids are in range. -/
theorem forward_eq_ok {embedding : Embedding α} {tokens : List Token} {rows : List (Row α)} :
    embedding.forward tokens = .ok rows ↔
      (∀ token ∈ tokens, token.toNat < embedding.rows.length) ∧
        rows = tokens.map (rowOf embedding) := by
  unfold Embedding.forward
  by_cases hrange : ∀ token ∈ tokens, token.toNat < embedding.rows.length
  · rw [mapM_eq_ok_of_forall fun token htoken ↦ lookup_of_lt (hrange token htoken),
      Except.ok.injEq, eq_comm]
    exact (and_iff_right hrange).symm
  · have hbad := hrange
    push Not at hbad
    obtain ⟨token, htoken, hle⟩ := hbad
    obtain ⟨err, herr⟩ := mapM_eq_error_of_exists ⟨token, htoken, lookup_of_le hle⟩
    rw [herr]
    exact iff_of_false (fun hok ↦ nomatch hok) fun hboth ↦ hrange hboth.1

/-- The hidden row a token enters the first block with. -/
def embedRow (model : Gpt2Model α) (token position : Token) : Row α :=
  addRows (rowOf model.wte token) (rowOf model.wpe position)

/-- What a decode pass computes for one sequence, from its own token, position and tensors. -/
def decodeRow (model : Gpt2Model α) (store : KvStore α) (lastToken : Token) (position : ℕ) :
    LogitRow α × KvStore α :=
  let result := decodeBlocks 0 model.blocks store
    (model.embedRow lastToken (UInt32.ofNat position))
  (model.logits result.1, result.2)

variable {model : Gpt2Model α}

theorem embed_singletons {ι : Type} (rows : List ι) (tokenOf positionOf : ι → Token)
    (htokens : ∀ row ∈ rows, (tokenOf row).toNat < model.config.vocabSize)
    (hpositions : ∀ row ∈ rows, (positionOf row).toNat < model.config.maxPositions) :
    model.embed (rows.map fun row ↦ [tokenOf row]) (rows.map fun row ↦ [positionOf row]) =
      .ok (rows.map fun row ↦ [model.embedRow (tokenOf row) (positionOf row)]) := by
  have htokenEmb : (rows.map fun row ↦ [tokenOf row]).mapM model.wte.forward =
      .ok (rows.map fun row ↦ [rowOf model.wte (tokenOf row)]) := by
    rw [List.mapM_map]
    apply mapM_eq_ok_of_forall
    intro row hrow
    have hlookup := lookup_of_lt (model.wte_length ▸ htokens row hrow)
    simp [Embedding.forward, hlookup]
  have hposEmb : (rows.map fun row ↦ [positionOf row]).mapM model.wpe.forward =
      .ok (rows.map fun row ↦ [rowOf model.wpe (positionOf row)]) := by
    rw [List.mapM_map]
    apply mapM_eq_ok_of_forall
    intro row hrow
    have hlookup := lookup_of_lt (model.wpe_length ▸ hpositions row hrow)
    simp [Embedding.forward, hlookup]
  unfold embed
  rw [htokenEmb, hposEmb]
  change ((rows.map _).zip (rows.map _)).mapM _ = _
  rw [List.zip_map', List.mapM_map]
  exact mapM_eq_ok_of_forall fun _ _ ↦ rfl

/-- A token or a position that is out of range fails the whole batch. -/
theorem embed_singletons_error (model : Gpt2Model α) {ι : Type} (rows : List ι) (tokenOf positionOf : ι → Token)
    (hbad : ∃ row ∈ rows, ¬ ((tokenOf row).toNat < model.config.vocabSize ∧
      (positionOf row).toNat < model.config.maxPositions)) :
    ∃ err, model.embed (rows.map fun row ↦ [tokenOf row]) (rows.map fun row ↦ [positionOf row]) =
      .error err := by
  have hforward : ∀ (embedding : Embedding α) (token : Token),
      embedding.rows.length ≤ token.toNat → ∃ err, embedding.forward [token] = .error err := by
    intro embedding token hle
    obtain ⟨err, hlookup⟩ := lookup_of_le hle
    exact mapM_eq_error_of_exists ⟨token, List.mem_cons_self, err, hlookup⟩
  unfold embed
  cases htokenEmb : (rows.map fun row ↦ [tokenOf row]).mapM model.wte.forward with
  | error err => exact ⟨err, rfl⟩
  | ok tokenEmb =>
      cases hposEmb : (rows.map fun row ↦ [positionOf row]).mapM model.wpe.forward with
      | error err => exact ⟨err, rfl⟩
      | ok posEmb =>
          obtain ⟨row, hrow, hout⟩ := hbad
          rcases not_and_or.mp hout with htoken | hposition
          · have hmem : [tokenOf row] ∈ rows.map fun row ↦ [tokenOf row] :=
              List.mem_map.mpr ⟨row, hrow, rfl⟩
            obtain ⟨err, herr⟩ := mapM_eq_error_of_exists (f := model.wte.forward)
              ⟨_, hmem, hforward model.wte _ (model.wte_length ▸ Nat.not_lt.mp htoken)⟩
            rw [htokenEmb] at herr
            cases herr
          · have hmem : [positionOf row] ∈ rows.map fun row ↦ [positionOf row] :=
              List.mem_map.mpr ⟨row, hrow, rfl⟩
            obtain ⟨err, herr⟩ := mapM_eq_error_of_exists (f := model.wpe.forward)
              ⟨_, hmem, hforward model.wpe _ (model.wpe_length ▸ Nat.not_lt.mp hposition)⟩
            rw [hposEmb] at herr
            cases herr

theorem confined_forwardT (inputIds positionIds : List (List Token)) (handles : List KvHandle)
    (prefill : Bool) : KvM.Confined handles (model.forwardT inputIds positionIds handles prefill) := by
  unfold forwardT
  apply KvM.confined_bind (KvM.confined_ofExcept _)
  intro xs
  apply KvM.confined_bind (confined_forwardBlocks _ _ _ _ _)
  intro xs
  exact KvM.confined_pure _

theorem confined_forward (batch : List DecodeInput) :
    KvM.Confined (batch.map DecodeInput.kvHandle) (model.forward batch) := by
  unfold forward
  split
  · exact KvM.confined_pure _
  · apply KvM.confined_bind (confined_forwardT _ _ _ _)
    intro logits
    exact KvM.confined_pure _

/-- One row of a batch can be decoded: its token and position are in range, and its next token fits
into its slot at every layer. -/
structure RowOk (model : Gpt2Model α) (cache : SlabKvCache (KvTensor α)) (input : DecodeInput) :
    Prop where
  token_lt : input.lastToken.toNat < model.config.vocabSize
  position_lt : (UInt32.ofNat input.position).toNat < model.config.maxPositions
  layers_fit : LayersFit cache model.config.nHead model.headDim 0 model.config.nLayer input.kvHandle

variable {cache : SlabKvCache (KvTensor α)}

/-- The batch as it reaches the first block. -/
def embedded (model : Gpt2Model α) (batch : List DecodeInput) : List (KvHandle × Row α) :=
  batch.map fun input ↦ (input.kvHandle, model.embedRow input.lastToken (UInt32.ofNat input.position))

theorem map_fst_embedded (batch : List DecodeInput) :
    (model.embedded batch).map Prod.fst = batch.map DecodeInput.kvHandle := by
  simp [embedded, Function.comp_def]

theorem map_snd_embedded (batch : List DecodeInput) :
    (model.embedded batch).map (fun row ↦ [row.2]) =
      batch.map fun input ↦ [model.embedRow input.lastToken (UInt32.ofNat input.position)] := by
  simp [embedded, Function.comp_def]

/-- A decode pass whose rows are all in order returns the private result of every row. -/
theorem forward_of_rowsOk (batch : List DecodeInput) (hwf : cache.Wf)
    (hnodup : (batch.map DecodeInput.kvHandle).Nodup)
    (hcurrent : ∀ input ∈ batch, cache.IsCurrentHandle input.kvHandle)
    (hok : ∀ input ∈ batch, model.RowOk cache input) :
    ∃ cache', model.forward batch cache =
        (.ok (batch.map fun input ↦
          (model.decodeRow (cache.stored input.kvHandle) input.lastToken input.position).1), cache') ∧
      ∀ input ∈ batch, cache'.stored input.kvHandle =
        (model.decodeRow (cache.stored input.kvHandle) input.lastToken input.position).2 := by
  by_cases hempty : batch = []
  · subst hempty
    exact ⟨cache, rfl, fun _ hinput ↦ nomatch hinput⟩
  have hnotEmpty : batch.isEmpty = false := by simpa using hempty
  have hembed := embed_singletons batch DecodeInput.lastToken
    (fun input ↦ UInt32.ofNat input.position) (fun input hinput ↦ (hok input hinput).token_lt)
    (fun input hinput ↦ (hok input hinput).position_lt)
  obtain ⟨cache', hblocks, -, hstored⟩ := forwardBlocks_of_fits model.blocks model.blocks_shape 0
    (model.embedded batch) (by simpa [embedded] using hempty) cache hwf
    (by rwa [map_fst_embedded]) (List.forall_mem_map.mpr hcurrent)
    (List.forall_mem_map.mpr fun input hinput ↦
      model.blocks_length ▸ (hok input hinput).layers_fit)
  rw [map_fst_embedded, map_snd_embedded] at hblocks
  have hrunEmbed : KvM.ofExcept (model.embed (batch.map fun input ↦ [input.lastToken])
      (batch.map fun input ↦ [UInt32.ofNat input.position])) cache =
        (.ok (batch.map fun input ↦
          [model.embedRow input.lastToken (UInt32.ofNat input.position)]), cache) := by
    unfold KvM.ofExcept
    rw [hembed]
  refine ⟨cache', ?_, ?_⟩
  · unfold forward forwardT
    simp only [hnotEmpty, Bool.false_eq_true, if_false, bind_assoc, pure_bind]
    rw [KvM.bind_ok hrunEmbed, KvM.bind_ok hblocks]
    simp only [embedded, List.map_map, Function.comp_def, List.map_cons, List.map_nil]
    change (Except.ok _, cache') = _
    rw [← List.flatMap_def, ← List.map_eq_flatMap]
    rfl
  · intro input hinput
    exact hstored _ (List.mem_map_of_mem hinput)

/-- A decode pass with one row that is not in order fails. -/
theorem forward_of_not_rowsOk (batch : List DecodeInput) (hwf : cache.Wf)
    (hnodup : (batch.map DecodeInput.kvHandle).Nodup)
    (hcurrent : ∀ input ∈ batch, cache.IsCurrentHandle input.kvHandle)
    (hbad : ∃ input ∈ batch, ¬ model.RowOk cache input) :
    ∃ err, (model.forward batch cache).1 = .error err := by
  obtain ⟨bad, hmem, hbad⟩ := hbad
  have hnotEmpty : batch.isEmpty = false := by simpa using List.ne_nil_of_mem hmem
  unfold forward forwardT
  simp only [hnotEmpty, Bool.false_eq_true, if_false, bind_assoc, pure_bind]
  by_cases hrange : ∀ input ∈ batch, input.lastToken.toNat < model.config.vocabSize ∧
      (UInt32.ofNat input.position).toNat < model.config.maxPositions
  · have hembed := embed_singletons batch DecodeInput.lastToken
      (fun input ↦ UInt32.ofNat input.position) (fun input hinput ↦ (hrange input hinput).1)
      (fun input hinput ↦ (hrange input hinput).2)
    have hlayers : ¬ LayersFit cache model.config.nHead model.headDim 0 model.blocks.length
        bad.kvHandle := by
      intro hfits
      exact hbad ⟨(hrange bad hmem).1, (hrange bad hmem).2, model.blocks_length ▸ hfits⟩
    obtain ⟨err, hblocks⟩ := forwardBlocks_of_not_fits model.blocks model.blocks_shape 0
      (model.embedded batch) cache hwf (by rwa [map_fst_embedded]) (List.forall_mem_map.mpr hcurrent)
      ⟨_, List.mem_map_of_mem hmem, hlayers⟩
    rw [map_fst_embedded, map_snd_embedded] at hblocks
    refine ⟨err, ?_⟩
    unfold KvM.ofExcept
    rw [hembed, KvM.bind_ok rfl, KvM.bind_error (Prod.ext hblocks rfl)]
  · push Not at hrange
    obtain ⟨input, hinput, hout⟩ := hrange
    obtain ⟨err, hembed⟩ := embed_singletons_error model batch DecodeInput.lastToken
      (fun input ↦ UInt32.ofNat input.position)
      ⟨input, hinput, fun hboth ↦ absurd hboth.2 (Nat.not_lt.mpr (hout hboth.1))⟩
    refine ⟨err, ?_⟩
    unfold KvM.ofExcept
    rw [hembed, KvM.bind_error rfl]

end Gpt2Model

end HotBatch
