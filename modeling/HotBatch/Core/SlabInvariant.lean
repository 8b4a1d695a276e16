import HotBatch.Core.KvRefinement
import Mathlib.Data.Set.Card

/-!
# The slab cache under arbitrary calls

Whatever handles are presented to it, in whatever order, the cache keeps its four tables in step. The
number of live handles decides alone whether there is a slot for another sequence.
-/

namespace HotBatch

namespace SlabKvCache

variable {τ : Type}

/-- As many handles are live as the table has entries. -/
theorem Wf.ncard_current [CacheTensor τ] {cache : SlabKvCache τ} (hwf : cache.Wf) :
    {handle | cache.IsCurrentHandle handle}.ncard = cache.allocatedSlots := by
  have himage : KvHandle.slot '' {handle | cache.IsCurrentHandle handle} =
      (cache.allocated.keys : Set ℕ) := by
    ext slot
    rw [Finset.mem_coe, Finmap.mem_keys, Finmap.mem_iff]
    constructor
    · rintro ⟨handle, hcurrent, rfl⟩
      exact ⟨handle, hcurrent⟩
    · rintro ⟨handle, hlookup⟩
      have hslot := (hwf.allocated_slot slot handle hlookup).1
      exact ⟨handle, by rwa [← hslot] at hlookup, hslot⟩
  have hinjective : Set.InjOn KvHandle.slot {handle | cache.IsCurrentHandle handle} :=
    fun _ hleft _ hright hslot ↦ eq_of_current_of_slot_eq hleft hright hslot
  calc {handle | cache.IsCurrentHandle handle}.ncard
      = (KvHandle.slot '' {handle | cache.IsCurrentHandle handle}).ncard :=
        hinjective.ncard_image.symm
    _ = cache.allocatedSlots := by
        rw [himage, Set.ncard_coe_finset]
        rfl

/-- Slots are free exactly while fewer handles are live than there are slots. -/
theorem Wf.freeSlots_ne_iff [CacheTensor τ] {cache : SlabKvCache τ} (hwf : cache.Wf) :
    cache.freeSlots ≠ [] ↔ {handle | cache.IsCurrentHandle handle}.ncard < cache.maxSeqs := by
  rw [hwf.ncard_current]
  refine ⟨fun hfree ↦ ?_, hwf.freeSlots_ne⟩
  obtain ⟨slot, hslot⟩ := List.exists_mem_of_ne_nil _ hfree
  have hwithin : cache.allocated.keys ⊆ (Finset.range cache.maxSeqs).erase slot := by
    intro other hother
    rw [Finmap.mem_keys, hwf.allocated_iff] at hother
    refine Finset.mem_erase.mpr ⟨?_, Finset.mem_range.mpr hother.1⟩
    rintro rfl
    exact hother.2 hslot
  calc cache.allocatedSlots
      ≤ ((Finset.range cache.maxSeqs).erase slot).card := Finset.card_le_card hwithin
    _ < (Finset.range cache.maxSeqs).card :=
        Finset.card_erase_lt_of_mem (Finset.mem_range.mpr (hwf.free_lt slot hslot))
    _ = cache.maxSeqs := Finset.card_range _

/-- When an allocation succeeds. -/
theorem Wf.exists_allocate_iff [CacheTensor τ] {cache : SlabKvCache τ} (hwf : cache.Wf)
    (promptLen maxNew : ℕ) :
    (∃ handle, (cache.allocate promptLen maxNew).1 = .ok handle) ↔
      {handle | cache.IsCurrentHandle handle}.ncard < cache.maxSeqs ∧
        promptLen + maxNew < Usize.size ∧ promptLen + maxNew ≤ cache.maxSeqLen := by
  rw [← hwf.freeSlots_ne_iff]
  constructor
  · rintro ⟨handle, hok⟩
    obtain ⟨hsize, hlen, rest, hfree, -⟩ := allocate_eq_ok (Prod.ext hok rfl)
    exact ⟨by simp [hfree], hsize, hlen⟩
  · rintro ⟨hfree, hsize, hlen⟩
    obtain ⟨handle, cache', hok⟩ := exists_allocate hsize hlen hfree
    exact ⟨handle, congrArg Prod.fst hok⟩

/-- A repeated release does nothing. -/
theorem free_free (cache : SlabKvCache τ) (handle : KvHandle) :
    (cache.free handle).free handle = cache.free handle := by
  apply free_of_not_current
  rw [isCurrentHandle_free]
  exact fun hboth ↦ hboth.2 rfl

variable [CacheTensor τ]

/-- The cache after some calls. -/
def performAll (cache : SlabKvCache τ) (calls : List (KvCall τ)) : SlabKvCache τ :=
  calls.foldl (fun cache call ↦ (cache.perform call).2) cache

theorem sameShape_perform (cache : SlabKvCache τ) (call : KvCall τ) :
    SameShape (cache.perform call).2 cache := by
  cases call with
  | allocate promptLen maxNew =>
      simp only [perform]
      cases hresult : cache.allocate promptLen maxNew with
      | mk result cache' =>
          cases result with
          | ok handle => exact sameShape_allocate hresult
          | error err =>
              have hsame := allocate_error (congrArg Prod.fst hresult)
              rw [hresult] at hsame
              obtain rfl : cache' = cache := hsame
              exact .refl cache'
  | free handle => exact sameShape_free handle cache
  | write handle layer k v =>
      have hframe := write_frame cache handle layer k v
      simp only [perform]
      cases hresult : cache.write handle layer k v with
      | mk result cache' =>
          rw [hresult] at hframe
          have hshape : SameShape cache' cache := by
            rw [show cache' = { cache with layers := cache'.layers } from hframe]
            exact ⟨rfl, rfl, rfl, rfl, rfl⟩
          cases result <;> exact hshape
  | read handle layer => exact .refl cache

/-- **No calls bring the cache out of step.** -/
theorem wf_performAll {cache : SlabKvCache τ} (hwf : cache.Wf) (calls : List (KvCall τ)) :
    (cache.performAll calls).Wf ∧ SameShape (cache.performAll calls) cache := by
  induction calls generalizing cache with
  | nil => exact ⟨hwf, .refl cache⟩
  | cons call calls ih =>
      obtain ⟨hafter, hshape⟩ := ih (KvHistory.wf_perform hwf call)
      exact ⟨hafter, hshape.trans (sameShape_perform cache call)⟩

/-- The live handles after an event: an issued one becomes live, a released one ceases to be. -/
def liveAfter (live : Set KvHandle) : KvEvent τ → Set KvHandle
  | .allocated handle => insert handle live
  | .freed handle => live \ {handle}
  | .written _ _ _ _ | .silent => live

/-- The handles that the callers have been issued and have not released since. -/
def liveHandles (cache : SlabKvCache τ) (live : Set KvHandle) : List (KvCall τ) → Set KvHandle
  | [] => live
  | call :: calls =>
      liveHandles (cache.perform call).2 (liveAfter live (cache.perform call).1) calls

theorem current_perform {cache : SlabKvCache τ} (hwf : cache.Wf) (call : KvCall τ) :
    {handle | (cache.perform call).2.IsCurrentHandle handle} =
      liveAfter {handle | cache.IsCurrentHandle handle} (cache.perform call).1 := by
  ext other
  cases call with
  | allocate promptLen maxNew =>
      simp only [perform]
      cases hresult : cache.allocate promptLen maxNew with
      | mk result cache' =>
          cases result with
          | ok handle => exact isCurrentHandle_allocate hwf hresult other
          | error err =>
              have hsame := allocate_error (congrArg Prod.fst hresult)
              rw [hresult] at hsame
              obtain rfl : cache' = cache := hsame
              exact Iff.rfl
  | free handle => exact isCurrentHandle_free cache handle other
  | write handle layer k v =>
      have hcurrent := isCurrentHandle_write cache handle other layer k v
      simp only [perform]
      cases hresult : cache.write handle layer k v with
      | mk result cache' =>
          rw [hresult] at hcurrent
          cases result <;> exact hcurrent
  | read handle layer => exact Iff.rfl

/-- **A handle is current exactly as long as it is issued and not released.** -/
theorem current_performAll {cache : SlabKvCache τ} (hwf : cache.Wf) (calls : List (KvCall τ)) :
    {handle | (cache.performAll calls).IsCurrentHandle handle} =
      cache.liveHandles {handle | cache.IsCurrentHandle handle} calls := by
  induction calls generalizing cache with
  | nil => rfl
  | cons call calls ih =>
      change {handle | ((cache.perform call).2.performAll calls).IsCurrentHandle handle} = _
      rw [ih (KvHistory.wf_perform hwf call), current_perform hwf, liveHandles]

/-- Every tensor in the table of a live handle has a shape that was admitted for it. -/
theorem Wf.fitsShape_of_mem {cache : SlabKvCache τ} (hwf : cache.Wf) {handle : KvHandle}
    (hcurrent : cache.IsCurrentHandle handle) {layers : List (Option (τ × τ))}
    (hlayers : cache.layers.lookup handle.slot = some layers) {entry : τ × τ}
    (hentry : some entry ∈ layers) : cache.FitsShape handle entry := by
  obtain ⟨layer, hlayer⟩ := List.mem_iff_getElem?.mp hentry
  apply hwf.stored_fits handle layer
  unfold stored
  rw [if_pos hcurrent, hlayers, Option.bind_some, hlayer]
  rfl

/-- What callers rely on: free and allocated slots partition `0..max_seqs`, an entry is keyed by its own
slot and within `max_seq_len`, and the layer table has the same slots, each with all its layers, whose
tensors have the shape of the cache and at most as many tokens as the handle's capacity. -/
structure InStep (maxSeqs maxSeqLen numLayers nHeads headDim : ℕ) (cache : SlabKvCache τ) : Prop where
  free_nodup : cache.freeSlots.Nodup
  disjoint : ∀ slot ∈ cache.freeSlots, slot ∉ cache.allocated
  covers : ∀ slot, slot ∈ cache.freeSlots ∨ slot ∈ cache.allocated ↔ slot < maxSeqs
  entry : ∀ slot handle, cache.allocated.lookup slot = some handle →
    handle.slot = slot ∧ handle.capacityTokens ≤ maxSeqLen
  same_slots : ∀ slot, slot ∈ cache.layers ↔ slot ∈ cache.allocated
  layers : ∀ slot handle layers, cache.allocated.lookup slot = some handle →
    cache.layers.lookup slot = some layers → layers.length = numLayers ∧
      ∀ k v, some (k, v) ∈ layers → ∃ tokens ≤ handle.capacityTokens,
        CacheTensor.dims k = [nHeads, tokens, headDim] ∧
        CacheTensor.dims v = [nHeads, tokens, headDim]

theorem Wf.inStep {cache : SlabKvCache τ} (hwf : cache.Wf) :
    cache.InStep cache.maxSeqs cache.maxSeqLen cache.numLayers cache.nHeads cache.headDim where
  free_nodup := hwf.free_nodup
  disjoint slot hfree hallocated := ((hwf.allocated_iff slot).mp hallocated).2 hfree
  covers := by
    intro slot
    rw [hwf.allocated_iff]
    constructor
    · rintro (hfree | ⟨hlt, -⟩)
      · exact hwf.free_lt slot hfree
      · exact hlt
    · intro hlt
      by_cases hfree : slot ∈ cache.freeSlots
      · exact Or.inl hfree
      · exact Or.inr ⟨hlt, hfree⟩
  entry := hwf.allocated_slot
  same_slots := hwf.layers_iff
  layers := by
    intro slot handle layers hlookup hentry
    have hslot := (hwf.allocated_slot slot handle hlookup).1
    rw [← hslot] at hlookup hentry
    refine ⟨hwf.layers_length _ _ hentry, fun k v hkv ↦ ?_⟩
    exact hwf.fitsShape_of_mem hlookup hentry hkv

/-- **The tables of the cache stay in step** after every sequence of calls with arbitrary handles, and
the live handles are those that were issued and have not been released since. So an allocation succeeds
exactly when fewer than `max_seqs` handles are live and the request fits, live handles have slots of
their own, and stale or repeated releases do nothing. -/
theorem slab_in_step (maxSeqs maxSeqLen numLayers nHeads headDim : ℕ) (calls : List (KvCall τ)) :
    let start : SlabKvCache τ := new maxSeqs maxSeqLen numLayers nHeads headDim
    let cache := start.performAll calls
    cache.InStep maxSeqs maxSeqLen numLayers nHeads headDim ∧
    {handle | cache.IsCurrentHandle handle} = start.liveHandles ∅ calls ∧
    (∀ promptLen maxNew, (∃ handle, (cache.allocate promptLen maxNew).1 = .ok handle) ↔
      {handle | cache.IsCurrentHandle handle}.ncard < maxSeqs ∧
        promptLen + maxNew < Usize.size ∧ promptLen + maxNew ≤ maxSeqLen) ∧
    (∀ left right, cache.IsCurrentHandle left → cache.IsCurrentHandle right →
      left.slot = right.slot → left = right) ∧
    ∀ handle, (¬ cache.IsCurrentHandle handle → cache.free handle = cache) ∧
      (cache.free handle).free handle = cache.free handle := by
  intro start cache
  have hstart : start.Wf := wf_new maxSeqs maxSeqLen numLayers nHeads headDim
  obtain ⟨hwf, hshape⟩ := wf_performAll hstart calls
  have hnone : {handle | start.IsCurrentHandle handle} = ∅ :=
    Set.eq_empty_of_forall_notMem fun _ hcurrent ↦ nomatch hcurrent
  have hlive : {handle | cache.IsCurrentHandle handle} = start.liveHandles ∅ calls :=
    hnone ▸ current_performAll hstart calls
  have hseqs : cache.maxSeqs = maxSeqs := hshape.maxSeqs_eq
  have hlen : cache.maxSeqLen = maxSeqLen := hshape.maxSeqLen_eq
  have hlayers : cache.numLayers = numLayers := hshape.numLayers_eq
  have hheads : cache.nHeads = nHeads := hshape.nHeads_eq
  have hdim : cache.headDim = headDim := hshape.headDim_eq
  have hin := hwf.inStep
  have hallocate := hwf.exists_allocate_iff
  rw [hseqs, hlen, hlayers, hheads, hdim] at hin
  rw [hseqs, hlen] at hallocate
  exact ⟨hin, hlive, hallocate, fun _ _ ↦ eq_of_current_of_slot_eq,
    fun handle ↦ ⟨free_of_not_current, free_free cache handle⟩⟩

end SlabKvCache

end HotBatch
