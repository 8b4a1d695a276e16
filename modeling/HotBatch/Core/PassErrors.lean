import HotBatch.Core.Capacity

/-!
# The errors of a model pass

Once positions and room are out of the way, a pass can only fail in the tensor library: by looking
up an embedding that does not exist. No write of such a pass is refused.
-/

namespace HotBatch

theorem exists_of_mapM_eq_error {β γ ε : Type} {f : β → Except ε γ} {values : List β} {err : ε}
    (herr : values.mapM f = .error err) : ∃ value ∈ values, f value = .error err := by
  induction values with
  | nil => cases herr
  | cons value values ih =>
      rw [List.mapM_cons] at herr
      cases hfirst : f value with
      | error first =>
          rw [hfirst] at herr
          obtain rfl : first = err := Except.error.inj herr
          exact ⟨value, List.mem_cons_self, hfirst⟩
      | ok result =>
          rw [hfirst] at herr
          cases hrest : values.mapM f with
          | error rest =>
              rw [hrest] at herr
              obtain rfl : rest = err := Except.error.inj herr
              obtain ⟨bad, hbad, hbadErr⟩ := ih hrest
              exact ⟨bad, List.mem_cons_of_mem _ hbad, hbadErr⟩
          | ok results =>
              rw [hrest] at herr
              cases herr

/-- An error of the tensor library, and not one of the engine's own checks. -/
def ModelError.IsTensor (err : ModelError) : Prop := ∃ text, err = .tensor text

variable {α : Type} [Kernels α]

theorem Embedding.isTensor_of_forward {embedding : Embedding α} {tokens : List Token}
    {err : ModelError} (herr : embedding.forward tokens = .error err) : err.IsTensor := by
  obtain ⟨token, -, hlookup⟩ := exists_of_mapM_eq_error herr
  unfold lookup at hlookup
  split at hlookup
  · cases hlookup
  · exact ⟨_, (Except.error.inj hlookup).symm⟩

theorem isTensor_of_broadcastAdd {left right : List (Row α)} {err : ModelError}
    (herr : broadcastAdd left right = .error err) : err.IsTensor := by
  unfold broadcastAdd at herr
  split at herr
  · cases herr
  · split at herr
    · cases herr
    · cases herr
    · exact ⟨_, (Except.error.inj herr).symm⟩

namespace Gpt2Model

variable {model : Gpt2Model α} {cache : SlabKvCache (KvTensor α)}

theorem isTensor_of_embed {inputIds positionIds : List (List Token)} {err : ModelError}
    (herr : model.embed inputIds positionIds = .error err) : err.IsTensor := by
  unfold embed at herr
  cases htokens : inputIds.mapM model.wte.forward with
  | error tokenErr =>
      rw [htokens] at herr
      obtain rfl : tokenErr = err := Except.error.inj herr
      obtain ⟨tokens, -, hforward⟩ := exists_of_mapM_eq_error htokens
      exact Embedding.isTensor_of_forward hforward
  | ok tokenEmb =>
      cases hpositions : positionIds.mapM model.wpe.forward with
      | error positionErr =>
          rw [htokens, hpositions] at herr
          obtain rfl : positionErr = err := Except.error.inj herr
          obtain ⟨positions, -, hforward⟩ := exists_of_mapM_eq_error hpositions
          exact Embedding.isTensor_of_forward hforward
      | ok positionEmb =>
          rw [htokens, hpositions] at herr
          obtain ⟨rows, -, hadd⟩ := exists_of_mapM_eq_error herr
          exact isTensor_of_broadcastAdd hadd

/-- A pass that cannot embed its batch fails before it touches the cache. -/
theorem forward_of_embed_error {batch : List DecodeInput} (hne : batch ≠ []) {err : ModelError}
    (herr : model.embed (batch.map fun input ↦ [input.lastToken])
      (batch.map fun input ↦ [UInt32.ofNat input.position]) = .error err) :
    model.forward batch cache = (.error err, cache) := by
  have hnotEmpty : batch.isEmpty = false := by simpa using hne
  unfold forward forwardT
  simp only [hnotEmpty, Bool.false_eq_true, if_false, bind_assoc, pure_bind]
  unfold KvM.ofExcept
  rw [herr, KvM.bind_error rfl]

theorem prefill_of_embed_error {promptTokens : List Token} {handle : KvHandle}
    (hlength : promptTokens.length - 1 ≠ 0) {err : ModelError}
    (herr : model.promptRows promptTokens = .error err) :
    model.prefill promptTokens handle cache = (.error err, cache) := by
  unfold prefill forwardT
  rw [if_neg hlength]
  simp only [bind_assoc, pure_bind]
  change (KvM.ofExcept (model.promptRows promptTokens) >>= _) cache = _
  unfold KvM.ofExcept
  rw [herr, KvM.bind_error rfl]

end Gpt2Model

namespace SmallTransformer

variable {model : SmallTransformer α} {cache : SlabKvCache (KvTensor α)}

/-- **A decode pass with room for everybody fails in the tensor library only.** -/
theorem isTensor_of_forward {batch : List DecodeInput} (hwf : cache.Wf)
    (hnodup : (batch.map DecodeInput.kvHandle).Nodup)
    (hcurrent : ∀ input ∈ batch, cache.IsCurrentHandle input.kvHandle)
    (hposition : ∀ input ∈ batch, input.position < model.maxPositions)
    (hroom : ∀ input ∈ batch, model.AcceptsInput input → model.RowOk cache input)
    {err : ModelError} (herr : (model.forward batch cache).1 = .error err) : err.IsTensor := by
  by_cases haccepts : ∀ input ∈ batch, model.AcceptsInput input
  · obtain ⟨cache', hok, -⟩ := forward_of_rowsOk batch hwf hnodup hcurrent fun input hinput ↦
      hroom input hinput (haccepts input hinput)
    rw [hok] at herr
    cases herr
  · push Not at haccepts
    obtain ⟨input, hinput, hrejected⟩ := haccepts
    have hnone : batch.find? (fun input ↦ model.maxPositions ≤ input.position) = none :=
      List.find?_eq_none.mpr fun input hinput ↦ by simpa using hposition input hinput
    unfold forward at herr
    rw [hnone] at herr
    cases model with
    | scripted model => exact absurd ⟨hposition input hinput, trivial⟩ hrejected
    | gpt2 model =>
        obtain ⟨embedErr, hembed⟩ := Gpt2Model.embed_singletons_error model batch
          DecodeInput.lastToken (fun input ↦ UInt32.ofNat input.position)
          ⟨input, hinput, fun hboth ↦ hrejected ⟨hposition input hinput, hboth.1⟩⟩
        dsimp only at herr
        rw [Gpt2Model.forward_of_embed_error (List.ne_nil_of_mem hinput) hembed] at herr
        obtain rfl : embedErr = err := Except.error.inj herr
        exact Gpt2Model.isTensor_of_embed hembed

/-- **A prefill with room for its prompt fails in the tensor library only.** -/
theorem isTensor_of_prefill {promptTokens : List Token} {handle : KvHandle} (hwf : cache.Wf)
    (hcurrent : cache.IsCurrentHandle handle) (hlength : promptTokens.length ≤ model.maxPositions)
    (hroom : model.AcceptsPrompt promptTokens → model.PrefillOk cache promptTokens handle)
    {err : ModelError} (herr : (model.prefill promptTokens handle cache).1 = .error err) :
    err.IsTensor := by
  by_cases haccepts : model.AcceptsPrompt promptTokens
  · obtain ⟨cache', hok, -⟩ := prefill_of_ok hwf hcurrent (hroom haccepts)
    rw [hok] at herr
    cases herr
  · cases model with
    | scripted model => exact absurd ⟨hlength, trivial⟩ haccepts
    | gpt2 model =>
        have hrejected : ¬ (promptTokens.length - 1 = 0 ∨
            ∃ xs, model.promptRows promptTokens = .ok xs) := fun hrows ↦ haccepts ⟨hlength, hrows⟩
        rw [not_or] at hrejected
        unfold prefill at herr
        rw [if_neg (Nat.not_lt.mpr hlength)] at herr
        cases hrows : model.promptRows promptTokens with
        | ok xs => exact absurd ⟨xs, hrows⟩ hrejected.2
        | error embedErr =>
            have hprefill : model.prefill promptTokens handle cache = (.error embedErr, cache) :=
              Gpt2Model.prefill_of_embed_error hrejected.1 hrows
            change (model.prefill promptTokens handle cache).1 = .error err at herr
            rw [hprefill] at herr
            obtain rfl : embedErr = err := Except.error.inj herr
            exact Gpt2Model.isTensor_of_embed hrows

end SmallTransformer

end HotBatch
