import HotBatch.Core.Gpt2Prefill

/-!
# Model passes on private caches

What a model pass does for one sequence, for both backends: `decodeRow` and `prefillStore` are
functions of the sequence's own input and stored tensors. The passes over the shared cache refine
them. A pass succeeds exactly when every row is in order on its own, it then returns the private
result of every row, and whatever happens it touches only the handles that it was given.
-/

namespace HotBatch

variable {α : Type} [Kernels α]

namespace ScriptedModel

/-- The next marker of a sequence fits into its slot. -/
def RowOk (cache : SlabKvCache (KvTensor α)) (input : DecodeInput) : Prop :=
  Fits cache kvShape.2.1 kvShape.2.2 0 input.kvHandle (Usize.saturatingAdd input.position 1)

/-- What a decode pass computes for one sequence. -/
def decodeRow (model : ScriptedModel) (store : KvStore α) (input : DecodeInput) :
    LogitRow α × KvStore α :=
  let tokens := Usize.saturatingAdd input.position 1
  (model.logits input.lastToken input.position input.promptHash input.seed,
    Function.update store 0 (some (marker tokens, marker tokens)))

variable {model : ScriptedModel} {cache : SlabKvCache (KvTensor α)}

@[simp]
theorem length_marker_rows (tokens : ℕ) : (marker tokens : KvTensor α).rows.length = tokens := by
  simp [marker, CacheTensor.zeros]

theorem write_marker_of_fits {handle : KvHandle} {tokens : ℕ} (hwf : cache.Wf)
    (hcurrent : cache.IsCurrentHandle handle)
    (hfits : Fits cache kvShape.2.1 kvShape.2.2 0 handle tokens) :
    ∃ cache', KvM.write handle 0 (marker tokens) (marker tokens) cache = (.ok (), cache') ∧
      KvM.Stores cache cache' handle 0 (marker tokens, marker tokens) :=
  KvM.write_of_fits hwf hcurrent rfl (by rwa [List.length_replicate])

theorem write_marker_of_not_fits {handle : KvHandle} {tokens : ℕ}
    (hfits : ¬ Fits cache kvShape.2.1 kvShape.2.2 0 handle tokens) :
    ∃ err, KvM.write handle 0 (marker tokens) (marker tokens) cache = (.error err, cache) :=
  KvM.write_of_not_fits (by rwa [List.length_replicate])

theorem confined_forward (model : ScriptedModel) (batch : List DecodeInput)
    {handles : List KvHandle} (hmem : ∀ input ∈ batch, input.kvHandle ∈ handles) :
    KvM.Confined handles (model.forward batch : KvM α _) := by
  induction batch with
  | nil => exact KvM.confined_pure _
  | cons input batch ih =>
      unfold forward
      apply KvM.confined_bind (KvM.confined_write (hmem input List.mem_cons_self) _ _ _)
      intro _
      apply KvM.confined_bind (ih fun other hother ↦ hmem other (List.mem_cons_of_mem _ hother))
      intro rows
      exact KvM.confined_pure _

theorem forward_of_rowsOk (batch : List DecodeInput) (cache : SlabKvCache (KvTensor α))
    (hwf : cache.Wf) (hnodup : (batch.map DecodeInput.kvHandle).Nodup)
    (hcurrent : ∀ input ∈ batch, cache.IsCurrentHandle input.kvHandle)
    (hok : ∀ input ∈ batch, RowOk cache input) :
    ∃ cache', model.forward batch cache =
        (.ok (batch.map fun input ↦ (model.decodeRow (cache.stored input.kvHandle) input).1),
          cache') ∧
      ∀ input ∈ batch, cache'.stored input.kvHandle =
        (model.decodeRow (cache.stored input.kvHandle) input).2 := by
  induction batch generalizing cache with
  | nil => exact ⟨cache, rfl, fun _ hinput ↦ nomatch hinput⟩
  | cons input batch ih =>
      obtain ⟨hnotMem, hnodup⟩ := List.nodup_cons.mp hnodup
      obtain ⟨middle, hwrite, hstores⟩ := write_marker_of_fits hwf
        (hcurrent input List.mem_cons_self) (hok input List.mem_cons_self)
      have hne : ∀ other ∈ batch, other.kvHandle ∉ [input.kvHandle] := by
        intro other hother hmem
        rw [List.mem_singleton] at hmem
        exact hnotMem (hmem ▸ List.mem_map_of_mem hother)
      obtain ⟨cache', hrest, hstored⟩ := ih middle hstores.confined.wf hnodup
        (fun other hother ↦ (hstores.confined.isCurrentHandle_iff _).mpr
          (hcurrent other (List.mem_cons_of_mem _ hother)))
        (fun other hother ↦ (hstores.confined.fits_iff _ _ _ _ _).mpr
          (hok other (List.mem_cons_of_mem _ hother)))
      have hconfined := model.confined_forward batch
        (fun other hother ↦ List.mem_map_of_mem hother) middle hstores.confined.wf
      rw [hrest] at hconfined
      refine ⟨cache', ?_, ?_⟩
      · unfold forward
        rw [KvM.bind_ok hwrite, KvM.bind_ok hrest]
        rfl
      · intro other hother
        rcases List.mem_cons.mp hother with rfl | hother
        · rw [hconfined.stored_eq _ hnotMem, hstores.stored_eq]
          rfl
        · rw [hstored other hother, hstores.confined.stored_eq _ (hne other hother)]

theorem forward_of_not_rowsOk (batch : List DecodeInput) (cache : SlabKvCache (KvTensor α))
    (hwf : cache.Wf) (hcurrent : ∀ input ∈ batch, cache.IsCurrentHandle input.kvHandle)
    (hbad : ∃ input ∈ batch, ¬ RowOk cache input) :
    ∃ err, (model.forward batch cache).1 = .error err := by
  induction batch generalizing cache with
  | nil =>
      obtain ⟨_, hinput, -⟩ := hbad
      cases hinput
  | cons input batch ih =>
      unfold forward
      by_cases hfirst : RowOk cache input
      · obtain ⟨middle, hwrite, hstores⟩ := write_marker_of_fits hwf
          (hcurrent input List.mem_cons_self) hfirst
        obtain ⟨bad, hmem, hbad⟩ := hbad
        have hrest : bad ∈ batch := by
          rcases List.mem_cons.mp hmem with rfl | hrest
          · exact absurd hfirst hbad
          · exact hrest
        obtain ⟨err, herr⟩ := ih middle hstores.confined.wf
          (fun other hother ↦ (hstores.confined.isCurrentHandle_iff _).mpr
            (hcurrent other (List.mem_cons_of_mem _ hother)))
          ⟨bad, hrest, (hstores.confined.fits_iff _ _ _ _ _).not.mpr hbad⟩
        exact ⟨err, by rw [KvM.bind_ok hwrite, KvM.bind_error (Prod.ext herr rfl)]⟩
      · obtain ⟨err, hwrite⟩ := write_marker_of_not_fits hfirst
        exact ⟨err, by rw [KvM.bind_error hwrite]⟩

end ScriptedModel

namespace SmallTransformer

variable {model : SmallTransformer α} {cache : SlabKvCache (KvTensor α)}

/-- One row of a batch can be decoded. -/
def RowOk (model : SmallTransformer α) (cache : SlabKvCache (KvTensor α)) (input : DecodeInput) :
    Prop :=
  input.position < model.maxPositions ∧
    match model with
    | .gpt2 model => model.RowOk cache input
    | .scripted _ => ScriptedModel.RowOk cache input

/-- What a decode pass computes for one sequence: its logits, and its tensors afterwards. -/
def decodeRow (model : SmallTransformer α) (store : KvStore α) (input : DecodeInput) :
    LogitRow α × KvStore α :=
  match model with
  | .gpt2 model => model.decodeRow store input.lastToken input.position
  | .scripted model => model.decodeRow store input

/-- The prompt of a request can be prefilled through this handle. -/
def PrefillOk (model : SmallTransformer α) (cache : SlabKvCache (KvTensor α))
    (promptTokens : List Token) (handle : KvHandle) : Prop :=
  promptTokens.length ≤ model.maxPositions ∧
    match model with
    | .gpt2 model => model.PrefillOk cache promptTokens handle
    | .scripted _ => Fits cache ScriptedModel.kvShape.2.1 ScriptedModel.kvShape.2.2 0 handle
        (promptTokens.length - 1)

/-- What a prefill stores for its sequence. -/
def prefillStore (model : SmallTransformer α) (promptTokens : List Token) (store : KvStore α) :
    KvStore α :=
  match model with
  | .gpt2 model => model.prefillStore promptTokens store
  | .scripted _ => Function.update store 0 (some (ScriptedModel.marker (promptTokens.length - 1),
      ScriptedModel.marker (promptTokens.length - 1)))

/-- A pass, successful or not, touches only what is stored for the handles of its rows. -/
theorem confined_forward (batch : List DecodeInput) :
    KvM.Confined (batch.map DecodeInput.kvHandle) (model.forward batch) := by
  unfold forward
  split
  · exact KvM.confined_throw _
  · cases model with
    | gpt2 model => exact Gpt2Model.confined_forward batch
    | scripted model =>
        exact model.confined_forward batch fun input hinput ↦ List.mem_map_of_mem hinput

theorem confined_prefill (promptTokens : List Token) (handle : KvHandle) :
    KvM.Confined [handle] (model.prefill promptTokens handle) := by
  unfold prefill
  split_ifs
  · exact KvM.confined_bind (KvM.confined_throw _) fun _ ↦ by
      cases model with
      | gpt2 model => exact Gpt2Model.confined_prefill promptTokens handle
      | scripted model => exact KvM.confined_write (List.mem_singleton_self _) _ _ _
  · cases model with
    | gpt2 model => exact Gpt2Model.confined_prefill promptTokens handle
    | scripted model => exact KvM.confined_write (List.mem_singleton_self _) _ _ _

/-- **A decode pass refines private decoding.** When all rows are in order, every row gets the
logits that its sequence computes alone, and its slot the tensors that it stores alone. -/
theorem forward_of_rowsOk (batch : List DecodeInput) (hwf : cache.Wf)
    (hnodup : (batch.map DecodeInput.kvHandle).Nodup)
    (hcurrent : ∀ input ∈ batch, cache.IsCurrentHandle input.kvHandle)
    (hok : ∀ input ∈ batch, model.RowOk cache input) :
    ∃ cache', model.forward batch cache =
        (.ok (batch.map fun input ↦ (model.decodeRow (cache.stored input.kvHandle) input).1),
          cache') ∧
      ∀ input ∈ batch, cache'.stored input.kvHandle =
        (model.decodeRow (cache.stored input.kvHandle) input).2 := by
  have hfind : (batch.find? fun input ↦ decide (model.maxPositions ≤ input.position)) = none := by
    rw [List.find?_eq_none]
    intro input hinput
    simpa using (hok input hinput).1
  unfold forward
  rw [hfind]
  cases model with
  | gpt2 model =>
      exact Gpt2Model.forward_of_rowsOk batch hwf hnodup hcurrent fun input hinput ↦
        (hok input hinput).2
  | scripted model =>
      exact ScriptedModel.forward_of_rowsOk batch cache hwf hnodup hcurrent fun input hinput ↦
        (hok input hinput).2

/-- A decode pass with a row that is not in order fails, for all its rows. -/
theorem forward_of_not_rowsOk (batch : List DecodeInput) (hwf : cache.Wf)
    (hnodup : (batch.map DecodeInput.kvHandle).Nodup)
    (hcurrent : ∀ input ∈ batch, cache.IsCurrentHandle input.kvHandle)
    (hbad : ∃ input ∈ batch, ¬ model.RowOk cache input) :
    ∃ err, (model.forward batch cache).1 = .error err := by
  unfold forward
  cases hfind : batch.find? fun input ↦ decide (model.maxPositions ≤ input.position) with
  | some input => exact ⟨_, rfl⟩
  | none =>
      obtain ⟨input, hinput, hrow⟩ := hbad
      have hposition : input.position < model.maxPositions := by
        simpa using List.find?_eq_none.mp hfind input hinput
      cases model with
      | gpt2 model =>
          exact Gpt2Model.forward_of_not_rowsOk batch hwf hnodup hcurrent
            ⟨input, hinput, fun hok ↦ hrow ⟨hposition, hok⟩⟩
      | scripted model =>
          exact ScriptedModel.forward_of_not_rowsOk batch cache hwf hcurrent
            ⟨input, hinput, fun hok ↦ hrow ⟨hposition, hok⟩⟩

theorem prefill_of_ok {promptTokens : List Token} {handle : KvHandle} (hwf : cache.Wf)
    (hcurrent : cache.IsCurrentHandle handle) (hok : model.PrefillOk cache promptTokens handle) :
    ∃ cache', model.prefill promptTokens handle cache = (.ok (), cache') ∧
      cache'.stored handle = model.prefillStore promptTokens (cache.stored handle) := by
  obtain ⟨hlen, hbackend⟩ := hok
  unfold prefill
  rw [if_neg (Nat.not_lt.mpr hlen)]
  cases model with
  | gpt2 model => exact Gpt2Model.prefill_of_ok hwf hcurrent hbackend
  | scripted model =>
      obtain ⟨cache', hwrite, hstores⟩ := ScriptedModel.write_marker_of_fits hwf hcurrent hbackend
      exact ⟨cache', hwrite, hstores.stored_eq⟩

theorem prefill_of_not_ok {promptTokens : List Token} {handle : KvHandle} (hwf : cache.Wf)
    (hcurrent : cache.IsCurrentHandle handle) (hbad : ¬ model.PrefillOk cache promptTokens handle) :
    ∃ err, (model.prefill promptTokens handle cache).1 = .error err := by
  unfold prefill
  by_cases hlen : promptTokens.length ≤ model.maxPositions
  swap
  · rw [if_pos (Nat.not_le.mp hlen)]
    exact ⟨_, rfl⟩
  rw [if_neg (Nat.not_lt.mpr hlen)]
  cases model with
  | gpt2 model =>
      exact Gpt2Model.prefill_of_not_ok hwf hcurrent fun hok ↦ hbad ⟨hlen, hok⟩
  | scripted model =>
      obtain ⟨err, hwrite⟩ :=
        ScriptedModel.write_marker_of_not_fits fun hfits ↦ hbad ⟨hlen, hfits⟩
      exact ⟨err, congrArg Prod.fst hwrite⟩

end SmallTransformer

end HotBatch
