import HotBatch.Foundation.Usize
import Mathlib.Data.Finmap

/-!
# The slab KV cache

`SlabKvCache` owns a fixed number of sequence slots. A slot is handed out with a fresh generation
number, and a handle is current exactly while the allocation table still maps its slot to it. The
cache never looks inside the tensors it stores: it reads their shapes and produces empty blocks for
layers that have not been written, so the tensor type is a parameter with those two operations.

Besides the operations of the source this module has the representation invariant `Wf` and, for
each operation, the one lemma that says what it does to the two observations the rest of the
development uses: which handles are current and what is stored for them.
-/

namespace HotBatch

/-- What the cache uses of a tensor library: shapes, and the all-zero tensor of a shape. -/
class CacheTensor (τ : Type) where
  dims : τ → List ℕ
  zeros : ℕ → ℕ → ℕ → τ
  dims_zeros : ∀ heads tokens headDim, dims (zeros heads tokens headDim) = [heads, tokens, headDim]

structure KvHandle where
  slot : ℕ
  capacityTokens : ℕ
  generation : UInt64
  deriving DecidableEq, Repr

/-- The failures of the cache operations, with the values their messages show. -/
inductive KvError where
  | full (promptLen maxNew maxSeqLen : ℕ)
  | noFreeSlots
  | staleWrite (slot : ℕ)
  | staleRead (slot : ℕ)
  | layerOutOfRange (layer numLayers : ℕ)
  | missingStorage (slot : ℕ)
  | rank (kDims vDims : List ℕ)
  | shapeMismatch (kDims vDims : List ℕ)
  | headMismatch (expected k v : ℕ)
  | headDimMismatch (expected k v : ℕ)
  | capacityExceeded (capacity kTokens vTokens : ℕ)
  deriving DecidableEq, Repr

/-- The text of a cache failure. -/
def KvError.message : KvError → String
  | .full promptLen maxNew maxSeqLen =>
      s!"kv cache full or requested sequence too long: prompt_len={promptLen}, max_new={maxNew}, max_seq_len={maxSeqLen}"
  | .noFreeSlots => "kv cache has no free slots"
  | .staleWrite slot => s!"attempted to write kv with stale or unallocated handle for slot {slot}"
  | .staleRead slot => s!"attempted to read kv with stale or unallocated handle for slot {slot}"
  | .layerOutOfRange layer numLayers => s!"kv layer {layer} out of range {numLayers}"
  | .missingStorage slot => s!"kv slot {slot} missing layer storage"
  | .rank kDims vDims => s!"kv tensors must be [heads, tokens, head_dim], got k={kDims}, v={vDims}"
  | .shapeMismatch kDims vDims => s!"kv key/value shape mismatch: k={kDims}, v={vDims}"
  | .headMismatch expected k v => s!"kv head mismatch: expected {expected}, got k={k}, v={v}"
  | .headDimMismatch expected k v => s!"kv head_dim mismatch: expected {expected}, got k={k}, v={v}"
  | .capacityExceeded capacity kTokens vTokens =>
      s!"kv token capacity exceeded: capacity={capacity}, k_tokens={kTokens}, v_tokens={vTokens}"

/-- The cache. `allocated` and `layers` are the two hash maps keyed by slot; `freeSlots` is the
queue of unused slots, taken from the front and returned at the back. -/
structure SlabKvCache (τ : Type) where
  maxSeqs : ℕ
  maxSeqLen : ℕ
  numLayers : ℕ
  nHeads : ℕ
  headDim : ℕ
  freeSlots : List ℕ
  allocated : Finmap fun _ : ℕ ↦ KvHandle
  nextGenerations : List UInt64
  layers : Finmap fun _ : ℕ ↦ List (Option (τ × τ))

namespace SlabKvCache

section Operations

variable {τ : Type}

def new (maxSeqs maxSeqLen numLayers nHeads headDim : ℕ) : SlabKvCache τ where
  maxSeqs := maxSeqs
  maxSeqLen := maxSeqLen
  numLayers := numLayers
  nHeads := nHeads
  headDim := headDim
  freeSlots := List.range maxSeqs
  allocated := ∅
  nextGenerations := List.replicate maxSeqs 0
  layers := ∅

def allocatedSlots (cache : SlabKvCache τ) : ℕ := cache.allocated.keys.card

def maxSequences (cache : SlabKvCache τ) : ℕ := cache.maxSeqs

def maxSequenceLen (cache : SlabKvCache τ) : ℕ := cache.maxSeqLen

/-- `is_current_handle`: the slot is still allocated to this very handle. -/
def IsCurrentHandle (cache : SlabKvCache τ) (handle : KvHandle) : Prop :=
  cache.allocated.lookup handle.slot = some handle

instance (cache : SlabKvCache τ) (handle : KvHandle) : Decidable (cache.IsCurrentHandle handle) :=
  inferInstanceAs (Decidable (cache.allocated.lookup handle.slot = some handle))

def hasRoomFor (cache : SlabKvCache τ) (promptLen maxNew : ℕ) : Bool :=
  (Usize.checkedAdd promptLen maxNew).any (fun tokens ↦ tokens ≤ cache.maxSeqLen) &&
    !cache.freeSlots.isEmpty

/-- `allocate`. The generation table is read in range: every free slot is below `max_seqs`, which
is `Wf.free_lt` and `Wf.generations_length`. The addition on generations wraps. -/
def allocate (promptLen maxNew : ℕ) (cache : SlabKvCache τ) :
    Except KvError KvHandle × SlabKvCache τ :=
  if !cache.hasRoomFor promptLen maxNew then
    (.error (.full promptLen maxNew cache.maxSeqLen), cache)
  else
    match cache.freeSlots with
    | [] => (.error .noFreeSlots, cache)
    | slot :: rest =>
        let generation := cache.nextGenerations.getD slot 0 + 1
        let handle : KvHandle := ⟨slot, promptLen + maxNew, generation⟩
        (.ok handle,
          { cache with
            freeSlots := rest
            nextGenerations := cache.nextGenerations.set slot generation
            allocated := cache.allocated.insert slot handle
            layers := cache.layers.insert slot (List.replicate cache.numLayers none) })

def free (handle : KvHandle) (cache : SlabKvCache τ) : SlabKvCache τ :=
  if cache.IsCurrentHandle handle then
    { cache with
      allocated := cache.allocated.erase handle.slot
      layers := cache.layers.erase handle.slot
      freeSlots := cache.freeSlots ++ [handle.slot] }
  else cache

variable [CacheTensor τ]

/-- The shape checks of `write`, in the order of the source. -/
def checkShapes (cache : SlabKvCache τ) (handle : KvHandle) (k v : τ) : Except KvError Unit :=
  match CacheTensor.dims k, CacheTensor.dims v with
  | [kHeads, kTokens, kHeadDim], [vHeads, vTokens, vHeadDim] =>
      if [kHeads, kTokens, kHeadDim] ≠ [vHeads, vTokens, vHeadDim] then
        .error (.shapeMismatch [kHeads, kTokens, kHeadDim] [vHeads, vTokens, vHeadDim])
      else if kHeads ≠ cache.nHeads ∨ vHeads ≠ cache.nHeads then
        .error (.headMismatch cache.nHeads kHeads vHeads)
      else if kHeadDim ≠ cache.headDim ∨ vHeadDim ≠ cache.headDim then
        .error (.headDimMismatch cache.headDim kHeadDim vHeadDim)
      else if handle.capacityTokens < kTokens ∨ handle.capacityTokens < vTokens then
        .error (.capacityExceeded handle.capacityTokens kTokens vTokens)
      else .ok ()
  | kDims, vDims => .error (.rank kDims vDims)

def write (handle : KvHandle) (layer : ℕ) (k v : τ) (cache : SlabKvCache τ) :
    Except KvError Unit × SlabKvCache τ :=
  if ¬ cache.IsCurrentHandle handle then (.error (.staleWrite handle.slot), cache)
  else if cache.numLayers ≤ layer then (.error (.layerOutOfRange layer cache.numLayers), cache)
  else
    match cache.layers.lookup handle.slot with
    | none => (.error (.missingStorage handle.slot), cache)
    | some layers =>
        match cache.checkShapes handle k v with
        | .error err => (.error err, cache)
        | .ok () =>
            (.ok (),
              { cache with
                layers := cache.layers.insert handle.slot (layers.set layer (some (k, v))) })

def read (handle : KvHandle) (layer : ℕ) (cache : SlabKvCache τ) : Except KvError (τ × τ) :=
  if ¬ cache.IsCurrentHandle handle then .error (.staleRead handle.slot)
  else if cache.numLayers ≤ layer then .error (.layerOutOfRange layer cache.numLayers)
  else
    match cache.layers.lookup handle.slot with
    | none => .error (.missingStorage handle.slot)
    | some layers =>
        match layers[layer]?.join with
        | some (k, v) => .ok (k, v)
        | none =>
            .ok (CacheTensor.zeros cache.nHeads 0 cache.headDim,
              CacheTensor.zeros cache.nHeads 0 cache.headDim)

end Operations

/-! ## Representation invariant and observations -/

variable {τ : Type}

/-- The tensors kept for a current handle at one layer; `none` before the first write. -/
def stored (cache : SlabKvCache τ) (handle : KvHandle) (layer : ℕ) : Option (τ × τ) :=
  if cache.IsCurrentHandle handle then
    (cache.layers.lookup handle.slot).bind fun layers ↦ layers[layer]?.join
  else none

theorem stored_eq_none_of_not_current {cache : SlabKvCache τ} {handle : KvHandle}
    (hstale : ¬ cache.IsCurrentHandle handle) (layer : ℕ) : cache.stored handle layer = none :=
  if_neg hstale

/-- Two current handles of one slot are the same handle. -/
theorem eq_of_current_of_slot_eq {cache : SlabKvCache τ} {left right : KvHandle}
    (hleft : cache.IsCurrentHandle left) (hright : cache.IsCurrentHandle right)
    (hslot : left.slot = right.slot) : left = right := by
  unfold IsCurrentHandle at hleft hright
  rw [hslot, hright] at hleft
  exact (Option.some.inj hleft).symm

/-- The parameters a cache was built with, which no operation changes. -/
structure SameShape (left right : SlabKvCache τ) : Prop where
  maxSeqs_eq : left.maxSeqs = right.maxSeqs
  maxSeqLen_eq : left.maxSeqLen = right.maxSeqLen
  numLayers_eq : left.numLayers = right.numLayers
  nHeads_eq : left.nHeads = right.nHeads
  headDim_eq : left.headDim = right.headDim

theorem SameShape.refl (cache : SlabKvCache τ) : SameShape cache cache := ⟨rfl, rfl, rfl, rfl, rfl⟩

theorem SameShape.trans {left middle right : SlabKvCache τ} (hleft : SameShape left middle)
    (hright : SameShape middle right) : SameShape left right where
  maxSeqs_eq := hleft.maxSeqs_eq.trans hright.maxSeqs_eq
  maxSeqLen_eq := hleft.maxSeqLen_eq.trans hright.maxSeqLen_eq
  numLayers_eq := hleft.numLayers_eq.trans hright.numLayers_eq
  nHeads_eq := hleft.nHeads_eq.trans hright.nHeads_eq
  headDim_eq := hleft.headDim_eq.trans hright.headDim_eq

theorem sameShape_free (handle : KvHandle) (cache : SlabKvCache τ) :
    SameShape (cache.free handle) cache := by
  unfold free
  split
  · exact ⟨rfl, rfl, rfl, rfl, rfl⟩
  · exact .refl cache

/-- A shape admitted for a handle of the given capacity. -/
def FitsShape [CacheTensor τ] (cache : SlabKvCache τ) (handle : KvHandle) (entry : τ × τ) : Prop :=
  ∃ tokens ≤ handle.capacityTokens,
    CacheTensor.dims entry.1 = [cache.nHeads, tokens, cache.headDim] ∧
    CacheTensor.dims entry.2 = [cache.nHeads, tokens, cache.headDim]

/-- The free list, the allocation table, the layer table and the generation table are in step. -/
structure Wf [CacheTensor τ] (cache : SlabKvCache τ) : Prop where
  free_nodup : cache.freeSlots.Nodup
  free_lt : ∀ slot ∈ cache.freeSlots, slot < cache.maxSeqs
  allocated_iff : ∀ slot, slot ∈ cache.allocated ↔ slot < cache.maxSeqs ∧ slot ∉ cache.freeSlots
  allocated_slot : ∀ slot handle, cache.allocated.lookup slot = some handle →
    handle.slot = slot ∧ handle.capacityTokens ≤ cache.maxSeqLen
  layers_iff : ∀ slot, slot ∈ cache.layers ↔ slot ∈ cache.allocated
  layers_length : ∀ slot layers, cache.layers.lookup slot = some layers →
    layers.length = cache.numLayers
  stored_fits : ∀ handle layer entry, cache.stored handle layer = some entry →
    cache.FitsShape handle entry
  generations_length : cache.nextGenerations.length = cache.maxSeqs

variable [CacheTensor τ]

theorem wf_new (maxSeqs maxSeqLen numLayers nHeads headDim : ℕ) :
    (new (τ := τ) maxSeqs maxSeqLen numLayers nHeads headDim).Wf where
  free_nodup := List.nodup_range
  free_lt := fun _ hslot ↦ List.mem_range.mp hslot
  allocated_iff := by
    intro slot
    simp [new, Finmap.notMem_empty]
  allocated_slot := by simp [new]
  layers_iff := by simp [new, Finmap.notMem_empty]
  layers_length := by simp [new]
  stored_fits := by simp [new, stored, IsCurrentHandle]
  generations_length := by simp [new]

/-- A current handle always has its layer storage. -/
theorem Wf.exists_layers {cache : SlabKvCache τ} (hwf : cache.Wf) {handle : KvHandle}
    (hcurrent : cache.IsCurrentHandle handle) :
    ∃ layers, cache.layers.lookup handle.slot = some layers ∧ layers.length = cache.numLayers := by
  have hmem : handle.slot ∈ cache.layers :=
    (hwf.layers_iff _).mpr (Finmap.mem_of_lookup_eq_some hcurrent)
  obtain ⟨layers, hlayers⟩ := Finmap.mem_iff.mp hmem
  exact ⟨layers, hlayers, hwf.layers_length _ _ hlayers⟩

theorem Wf.slot_lt {cache : SlabKvCache τ} (hwf : cache.Wf) {handle : KvHandle}
    (hcurrent : cache.IsCurrentHandle handle) : handle.slot < cache.maxSeqs :=
  ((hwf.allocated_iff _).mp (Finmap.mem_of_lookup_eq_some hcurrent)).1

/-! ## Reading -/

/-- A read of a layer the cache has returns what is stored, or the empty block. -/
theorem read_of_current {cache : SlabKvCache τ} (hwf : cache.Wf) {handle : KvHandle}
    (hcurrent : cache.IsCurrentHandle handle) {layer : ℕ} (hlayer : layer < cache.numLayers) :
    cache.read handle layer = .ok ((cache.stored handle layer).getD
      (CacheTensor.zeros cache.nHeads 0 cache.headDim,
        CacheTensor.zeros cache.nHeads 0 cache.headDim)) := by
  obtain ⟨layers, hlayers, -⟩ := hwf.exists_layers hcurrent
  unfold read stored
  rw [if_neg (not_not.mpr hcurrent), if_neg (Nat.not_le.mpr hlayer), if_pos hcurrent, hlayers]
  simp only [Option.bind_some]
  cases layers[layer]?.join <;> rfl

theorem read_of_not_current {cache : SlabKvCache τ} {handle : KvHandle}
    (hstale : ¬ cache.IsCurrentHandle handle) (layer : ℕ) :
    cache.read handle layer = .error (.staleRead handle.slot) :=
  if_pos hstale

theorem read_of_numLayers_le {cache : SlabKvCache τ} {handle : KvHandle}
    (hcurrent : cache.IsCurrentHandle handle) {layer : ℕ} (hlayer : cache.numLayers ≤ layer) :
    cache.read handle layer = .error (.layerOutOfRange layer cache.numLayers) := by
  unfold read
  rw [if_neg (not_not.mpr hcurrent), if_pos hlayer]

/-! ## Allocation -/

omit [CacheTensor τ] in
/-- Everything a successful allocation does. -/
theorem allocate_eq_ok {cache cache' : SlabKvCache τ} {promptLen maxNew : ℕ} {handle : KvHandle}
    (hok : cache.allocate promptLen maxNew = (.ok handle, cache')) :
    promptLen + maxNew < Usize.size ∧ promptLen + maxNew ≤ cache.maxSeqLen ∧
    ∃ rest, cache.freeSlots = handle.slot :: rest ∧
      handle = ⟨handle.slot, promptLen + maxNew, cache.nextGenerations.getD handle.slot 0 + 1⟩ ∧
      cache' = { cache with
        freeSlots := rest
        nextGenerations := cache.nextGenerations.set handle.slot handle.generation
        allocated := cache.allocated.insert handle.slot handle
        layers := cache.layers.insert handle.slot (List.replicate cache.numLayers none) } := by
  unfold allocate at hok
  by_cases hroom : cache.hasRoomFor promptLen maxNew = true
  · simp only [hroom, Bool.not_true, Bool.false_eq_true, if_false] at hok
    have hfits : promptLen + maxNew < Usize.size ∧ promptLen + maxNew ≤ cache.maxSeqLen := by
      unfold hasRoomFor at hroom
      simp only [Bool.and_eq_true, Option.any_eq_true, decide_eq_true_eq] at hroom
      obtain ⟨⟨sum, hsum, hle⟩, -⟩ := hroom
      obtain ⟨hlt, rfl⟩ := Usize.checkedAdd_eq_some.mp hsum
      exact ⟨hlt, hle⟩
    cases hfree : cache.freeSlots with
    | nil => simp [hfree] at hok
    | cons slot rest =>
        rw [hfree] at hok
        obtain ⟨hhandle, hcache⟩ := Prod.mk.inj hok
        obtain rfl := Except.ok.inj hhandle
        exact ⟨hfits.1, hfits.2, rest, rfl, rfl, hcache.symm⟩
  · rw [Bool.not_eq_true] at hroom
    simp [hroom] at hok

omit [CacheTensor τ] in
/-- A refused allocation changes nothing. -/
theorem allocate_error {cache : SlabKvCache τ} {promptLen maxNew : ℕ} {err : KvError}
    (herr : (cache.allocate promptLen maxNew).1 = .error err) :
    (cache.allocate promptLen maxNew).2 = cache := by
  unfold allocate at herr ⊢
  by_cases hroom : (!cache.hasRoomFor promptLen maxNew) = true
  · rw [if_pos hroom]
  · rw [if_neg hroom] at herr ⊢
    cases hfree : cache.freeSlots with
    | nil => rfl
    | cons slot rest => simp [hfree] at herr

omit [CacheTensor τ] in
/-- Allocation succeeds whenever the request fits a sequence and some slot is free. -/
theorem exists_allocate {cache : SlabKvCache τ} {promptLen maxNew : ℕ}
    (hsize : promptLen + maxNew < Usize.size) (hlen : promptLen + maxNew ≤ cache.maxSeqLen)
    (hfree : cache.freeSlots ≠ []) :
    ∃ handle cache', cache.allocate promptLen maxNew = (.ok handle, cache') := by
  have hroom : cache.hasRoomFor promptLen maxNew = true := by
    unfold hasRoomFor
    rw [Usize.checkedAdd_eq_some.mpr ⟨hsize, rfl⟩]
    simp [hlen, hfree]
  obtain ⟨slot, rest, hslots⟩ := List.exists_cons_of_ne_nil hfree
  unfold allocate
  simp only [hroom, Bool.not_true, Bool.false_eq_true, if_false, hslots]
  exact ⟨_, _, rfl⟩

/-- A slot is free as long as not all of them are allocated. -/
theorem Wf.freeSlots_ne {cache : SlabKvCache τ} (hwf : cache.Wf)
    (hlt : cache.allocatedSlots < cache.maxSequences) : cache.freeSlots ≠ [] := by
  intro hnone
  have hall : Finset.range cache.maxSeqs ⊆ cache.allocated.keys := by
    intro slot hslot
    rw [Finmap.mem_keys, hwf.allocated_iff, hnone]
    exact ⟨Finset.mem_range.mp hslot, List.not_mem_nil⟩
  have hcard := Finset.card_le_card hall
  rw [Finset.card_range] at hcard
  exact Nat.not_le.mpr hlt hcard

omit [CacheTensor τ] in
theorem sameShape_allocate {cache cache' : SlabKvCache τ} {promptLen maxNew : ℕ} {handle : KvHandle}
    (hok : cache.allocate promptLen maxNew = (.ok handle, cache')) : SameShape cache' cache := by
  obtain ⟨-, -, rest, -, -, rfl⟩ := allocate_eq_ok hok
  exact ⟨rfl, rfl, rfl, rfl, rfl⟩

section Allocate

variable {cache cache' : SlabKvCache τ} {promptLen maxNew : ℕ} {handle : KvHandle}

/-- The slot handed out was not in use. -/
theorem allocate_slot_fresh (hwf : cache.Wf)
    (hok : cache.allocate promptLen maxNew = (.ok handle, cache')) :
    handle.slot ∉ cache.allocated := by
  obtain ⟨-, -, rest, hfree, -, -⟩ := allocate_eq_ok hok
  intro hmem
  have hnotFree := ((hwf.allocated_iff _).mp hmem).2
  exact hnotFree (hfree ▸ List.mem_cons_self)

/-- After an allocation the current handles are the new one and the earlier ones. -/
theorem isCurrentHandle_allocate (hwf : cache.Wf)
    (hok : cache.allocate promptLen maxNew = (.ok handle, cache')) (other : KvHandle) :
    cache'.IsCurrentHandle other ↔ other = handle ∨ cache.IsCurrentHandle other := by
  have hfresh := allocate_slot_fresh hwf hok
  obtain ⟨-, -, rest, -, -, rfl⟩ := allocate_eq_ok hok
  unfold IsCurrentHandle
  by_cases hslot : other.slot = handle.slot
  · have hnone : cache.allocated.lookup other.slot = none := by
      rw [hslot]
      exact Finmap.lookup_eq_none.mpr hfresh
    rw [hnone, hslot, Finmap.lookup_insert]
    simp [eq_comm]
  · have hne : other ≠ handle := fun heq ↦ hslot (heq ▸ rfl)
    simp only [Finmap.lookup_insert_of_ne _ hslot, hne, false_or]

/-- A fresh handle has nothing stored, and nothing else changes. -/
theorem stored_allocate (hwf : cache.Wf)
    (hok : cache.allocate promptLen maxNew = (.ok handle, cache')) (other : KvHandle)
    (layer : ℕ) :
    cache'.stored other layer = if other = handle then none else cache.stored other layer := by
  have hcurrent := isCurrentHandle_allocate hwf hok other
  have hfresh := allocate_slot_fresh hwf hok
  obtain ⟨-, -, rest, -, -, rfl⟩ := allocate_eq_ok hok
  by_cases heq : other = handle
  · subst heq
    rw [if_pos rfl, stored, if_pos (hcurrent.mpr (Or.inl rfl))]
    simp only [Finmap.lookup_insert, Option.bind_some, List.getElem?_replicate]
    split <;> rfl
  · rw [if_neg heq]
    by_cases hold : cache.IsCurrentHandle other
    · have hslot : other.slot ≠ handle.slot := by
        intro hslot
        exact hfresh (hslot ▸ Finmap.mem_of_lookup_eq_some hold)
      rw [stored, if_pos (hcurrent.mpr (Or.inr hold)), stored, if_pos hold]
      simp only [Finmap.lookup_insert_of_ne _ hslot]
    · rw [stored_eq_none_of_not_current hold, stored_eq_none_of_not_current]
      rw [hcurrent]
      exact not_or.mpr ⟨heq, hold⟩

theorem wf_allocate (hwf : cache.Wf)
    (hok : cache.allocate promptLen maxNew = (.ok handle, cache')) : cache'.Wf := by
  have hstored := stored_allocate hwf hok
  obtain ⟨-, hlen, rest, hfree, hhandle, rfl⟩ := allocate_eq_ok hok
  have hnodup : (handle.slot :: rest).Nodup := hfree ▸ hwf.free_nodup
  have hslot : handle.slot < cache.maxSeqs := hwf.free_lt _ (hfree ▸ List.mem_cons_self)
  constructor
  case free_nodup => exact (List.nodup_cons.mp hnodup).2
  case free_lt =>
    intro slot hmem
    exact hwf.free_lt slot (hfree ▸ List.mem_cons_of_mem _ hmem)
  case allocated_iff =>
    intro slot
    simp only [Finmap.mem_insert, hwf.allocated_iff, hfree, List.mem_cons]
    by_cases heq : slot = handle.slot
    · subst heq
      simp [hslot, (List.nodup_cons.mp hnodup).1]
    · simp [heq]
  case allocated_slot =>
    intro slot entry hentry
    by_cases heq : slot = handle.slot
    · subst heq
      simp only [Finmap.lookup_insert, Option.some.injEq] at hentry
      subst hentry
      refine ⟨rfl, ?_⟩
      rw [hhandle]
      exact hlen
    · simp only [Finmap.lookup_insert_of_ne _ heq] at hentry
      exact hwf.allocated_slot slot entry hentry
  case layers_iff => simp [hwf.layers_iff]
  case layers_length =>
    intro slot layers hlayers
    by_cases heq : slot = handle.slot
    · subst heq
      simp only [Finmap.lookup_insert, Option.some.injEq] at hlayers
      simp [← hlayers]
    · simp only [Finmap.lookup_insert_of_ne _ heq] at hlayers
      exact hwf.layers_length slot layers hlayers
  case stored_fits =>
    intro other layer entry hentry
    rw [hstored] at hentry
    split at hentry
    · cases hentry
    · exact hwf.stored_fits other layer entry hentry
  case generations_length => simpa using hwf.generations_length

end Allocate

/-! ## Release -/

omit [CacheTensor τ] in
/-- Freeing a handle that is not current changes nothing. -/
theorem free_of_not_current {cache : SlabKvCache τ} {handle : KvHandle}
    (hstale : ¬ cache.IsCurrentHandle handle) : cache.free handle = cache :=
  if_neg hstale

omit [CacheTensor τ] in
/-- After a release the handle is no longer current, and no other handle is affected. -/
theorem isCurrentHandle_free (cache : SlabKvCache τ) (handle other : KvHandle) :
    (cache.free handle).IsCurrentHandle other ↔ cache.IsCurrentHandle other ∧ other ≠ handle := by
  by_cases hcurrent : cache.IsCurrentHandle handle
  · unfold free
    rw [if_pos hcurrent]
    by_cases hslot : other.slot = handle.slot
    · constructor
      · intro hother
        unfold IsCurrentHandle at hother
        rw [hslot, Finmap.lookup_erase] at hother
        cases hother
      · rintro ⟨hother, hne⟩
        exact absurd (eq_of_current_of_slot_eq hother hcurrent hslot) hne
    · have hne : other ≠ handle := fun heq ↦ hslot (heq ▸ rfl)
      simp [IsCurrentHandle, Finmap.lookup_erase_ne hslot, hne]
  · rw [free_of_not_current hcurrent]
    refine ⟨fun hother ↦ ⟨hother, ?_⟩, And.left⟩
    rintro rfl
    exact hcurrent hother

omit [CacheTensor τ] in
/-- A release forgets what was stored for its handle and keeps the rest. -/
theorem stored_free (cache : SlabKvCache τ) (handle other : KvHandle) (layer : ℕ) :
    (cache.free handle).stored other layer =
      if other = handle then none else cache.stored other layer := by
  have hiff := isCurrentHandle_free cache handle other
  by_cases heq : other = handle
  · rw [if_pos heq, stored_eq_none_of_not_current]
    exact fun hother ↦ (hiff.mp hother).2 heq
  · rw [if_neg heq]
    by_cases hother : cache.IsCurrentHandle other
    · rw [stored, if_pos (hiff.mpr ⟨hother, heq⟩), stored, if_pos hother]
      by_cases hcurrent : cache.IsCurrentHandle handle
      · have hslot : other.slot ≠ handle.slot := fun hslot ↦
          heq (eq_of_current_of_slot_eq hother hcurrent hslot)
        simp only [free, if_pos hcurrent, Finmap.lookup_erase_ne hslot]
      · rw [free_of_not_current hcurrent]
    · rw [stored_eq_none_of_not_current hother, stored_eq_none_of_not_current]
      exact fun hcurrent ↦ hother (hiff.mp hcurrent).1

theorem wf_free {cache : SlabKvCache τ} (hwf : cache.Wf) (handle : KvHandle) :
    (cache.free handle).Wf := by
  by_cases hcurrent : cache.IsCurrentHandle handle
  swap
  · rw [free_of_not_current hcurrent]
    exact hwf
  have hstored := stored_free cache handle
  have hmem : handle.slot ∈ cache.allocated := Finmap.mem_of_lookup_eq_some hcurrent
  obtain ⟨hlt, hnotFree⟩ := (hwf.allocated_iff _).mp hmem
  unfold free at hstored ⊢
  rw [if_pos hcurrent] at hstored ⊢
  constructor
  case free_nodup =>
    refine List.nodup_append.mpr ⟨hwf.free_nodup, List.nodup_singleton _, ?_⟩
    rintro slot hslot _ hsingle rfl
    exact hnotFree (List.mem_singleton.mp hsingle ▸ hslot)
  case free_lt =>
    intro slot hslot
    rcases List.mem_append.mp hslot with hslot | hslot
    · exact hwf.free_lt slot hslot
    · exact List.mem_singleton.mp hslot ▸ hlt
  case allocated_iff =>
    intro slot
    simp only [Finmap.mem_erase, hwf.allocated_iff, List.mem_append, List.mem_singleton]
    tauto
  case allocated_slot =>
    intro slot entry hentry
    by_cases heq : slot = handle.slot
    · subst heq
      simp at hentry
    · rw [Finmap.lookup_erase_ne heq] at hentry
      exact hwf.allocated_slot slot entry hentry
  case layers_iff => simp [hwf.layers_iff]
  case layers_length =>
    intro slot layers hlayers
    by_cases heq : slot = handle.slot
    · subst heq
      simp at hlayers
    · rw [Finmap.lookup_erase_ne heq] at hlayers
      exact hwf.layers_length slot layers hlayers
  case stored_fits =>
    intro other layer entry hentry
    rw [hstored] at hentry
    split at hentry
    · cases hentry
    · exact hwf.stored_fits other layer entry hentry
  case generations_length => exact hwf.generations_length

/-! ## Writing -/

/-- The shape checks accept exactly equal rank-three shapes of the cache's heads and head
dimension whose token count is within the handle's capacity. -/
theorem checkShapes_eq_ok {cache : SlabKvCache τ} {handle : KvHandle} {k v : τ} :
    cache.checkShapes handle k v = .ok () ↔ cache.FitsShape handle (k, v) := by
  unfold checkShapes FitsShape
  constructor
  · intro hok
    split at hok
    · rename_i kHeads kTokens kHeadDim vHeads vTokens vHeadDim hk hv
      split_ifs at hok with hsame hheads hdims hcapacity
      simp only [ne_eq, List.cons.injEq, and_true, not_not, not_or] at hsame hheads hdims
      refine ⟨kTokens, by omega, ?_, ?_⟩
      · rw [hk, hheads.1, hdims.1]
      · rw [hv, ← hsame.1, ← hsame.2.1, ← hsame.2.2, hheads.1, hdims.1]
    · cases hok
  · rintro ⟨tokens, htokens, hk, hv⟩
    rw [hk, hv]
    simp [Nat.not_lt.mpr htokens]

/-- Everything a successful write does. -/
theorem write_eq_ok {cache cache' : SlabKvCache τ} {handle : KvHandle} {layer : ℕ} {k v : τ}
    (hok : cache.write handle layer k v = (.ok (), cache')) :
    cache.IsCurrentHandle handle ∧ layer < cache.numLayers ∧ cache.FitsShape handle (k, v) ∧
    ∃ layers, cache.layers.lookup handle.slot = some layers ∧
      cache' = { cache with
        layers := cache.layers.insert handle.slot (layers.set layer (some (k, v))) } := by
  unfold write at hok
  by_cases hcurrent : cache.IsCurrentHandle handle
  swap
  · simp [hcurrent] at hok
  by_cases hlayer : cache.numLayers ≤ layer
  · simp [hcurrent, hlayer] at hok
  rw [if_neg (not_not.mpr hcurrent), if_neg hlayer] at hok
  cases hlayers : cache.layers.lookup handle.slot with
  | none => simp [hlayers] at hok
  | some layers =>
      cases hshapes : cache.checkShapes handle k v with
      | error err => simp [hlayers, hshapes] at hok
      | ok _ =>
          simp only [hlayers, hshapes, Prod.mk.injEq, true_and] at hok
          exact ⟨hcurrent, Nat.not_le.mp hlayer, checkShapes_eq_ok.mp hshapes, layers, rfl,
            hok.symm⟩

/-- A write through a current handle to a layer of the cache with a fitting shape succeeds. -/
theorem exists_write {cache : SlabKvCache τ} (hwf : cache.Wf) {handle : KvHandle}
    (hcurrent : cache.IsCurrentHandle handle) {layer : ℕ} (hlayer : layer < cache.numLayers)
    {k v : τ} (hfits : cache.FitsShape handle (k, v)) :
    ∃ cache', cache.write handle layer k v = (.ok (), cache') := by
  obtain ⟨layers, hlayers, -⟩ := hwf.exists_layers hcurrent
  unfold write
  rw [if_neg (not_not.mpr hcurrent), if_neg (Nat.not_le.mpr hlayer), hlayers]
  simp only [checkShapes_eq_ok.mpr hfits]
  exact ⟨_, rfl⟩

/-- A refused write changes nothing. -/
theorem write_error {cache : SlabKvCache τ} {handle : KvHandle} {layer : ℕ} {k v : τ}
    {err : KvError} (herr : (cache.write handle layer k v).1 = .error err) :
    (cache.write handle layer k v).2 = cache := by
  unfold write at herr ⊢
  by_cases hcurrent : cache.IsCurrentHandle handle
  swap
  · rw [if_pos hcurrent]
  by_cases hlayer : cache.numLayers ≤ layer
  · rw [if_neg (not_not.mpr hcurrent), if_pos hlayer]
  rw [if_neg (not_not.mpr hcurrent), if_neg hlayer] at herr ⊢
  cases hlayers : cache.layers.lookup handle.slot with
  | none => rfl
  | some layers =>
      cases hshapes : cache.checkShapes handle k v with
      | error err => rfl
      | ok _ => simp [hlayers, hshapes] at herr

theorem write_of_not_current {cache : SlabKvCache τ} {handle : KvHandle}
    (hstale : ¬ cache.IsCurrentHandle handle) (layer : ℕ) (k v : τ) :
    cache.write handle layer k v = (.error (.staleWrite handle.slot), cache) :=
  if_pos hstale

/-- A write, refused or not, leaves the allocation side of the cache alone. -/
theorem write_frame (cache : SlabKvCache τ) (handle : KvHandle) (layer : ℕ) (k v : τ) :
    (cache.write handle layer k v).2 =
      { cache with layers := (cache.write handle layer k v).2.layers } := by
  cases hresult : (cache.write handle layer k v).1 with
  | error err => rw [write_error hresult]
  | ok _ =>
      have hok : cache.write handle layer k v = (.ok (), (cache.write handle layer k v).2) :=
        Prod.ext hresult rfl
      rcases write_eq_ok hok with ⟨-, -, -, layers, -, hcache⟩
      rw [hcache]

theorem isCurrentHandle_write (cache : SlabKvCache τ) (handle other : KvHandle) (layer : ℕ)
    (k v : τ) :
    (cache.write handle layer k v).2.IsCurrentHandle other ↔ cache.IsCurrentHandle other := by
  rw [write_frame]
  rfl

/-- A successful write is seen at its own handle and layer and nowhere else. -/
theorem stored_write {cache cache' : SlabKvCache τ} (hwf : cache.Wf) {handle : KvHandle}
    {layer : ℕ} {k v : τ} (hok : cache.write handle layer k v = (.ok (), cache'))
    (other : KvHandle) (index : ℕ) :
    cache'.stored other index =
      if other = handle ∧ index = layer then some (k, v) else cache.stored other index := by
  obtain ⟨hcurrent, hlayer, -, layers, hlayers, rfl⟩ := write_eq_ok hok
  have hlength : layers.length = cache.numLayers := hwf.layers_length _ _ hlayers
  by_cases hother : cache.IsCurrentHandle other
  · have hother' : ({ cache with
        layers := cache.layers.insert handle.slot (layers.set layer (some (k, v))) } :
          SlabKvCache τ).IsCurrentHandle other := hother
    rw [stored, if_pos hother', stored, if_pos hother]
    by_cases heq : other = handle
    · subst heq
      simp only [Finmap.lookup_insert, Option.bind_some, true_and, hlayers]
      by_cases hindex : index = layer
      · subst hindex
        simp [hlength, hlayer]
      · simp [hindex, Ne.symm hindex]
    · have hslot : other.slot ≠ handle.slot := fun hslot ↦
        heq (eq_of_current_of_slot_eq hother hcurrent hslot)
      simp only [Finmap.lookup_insert_of_ne _ hslot, heq, false_and, if_false]
  · have hne : other ≠ handle := fun heq ↦ hother (heq ▸ hcurrent)
    rw [if_neg fun hboth ↦ hne hboth.1, stored_eq_none_of_not_current hother]
    apply stored_eq_none_of_not_current
    exact hother

theorem wf_write {cache : SlabKvCache τ} (hwf : cache.Wf) (handle : KvHandle) (layer : ℕ)
    (k v : τ) : (cache.write handle layer k v).2.Wf := by
  cases hresult : (cache.write handle layer k v).1 with
  | error err =>
      rw [write_error hresult]
      exact hwf
  | ok _ =>
      have hok : cache.write handle layer k v = (.ok (), (cache.write handle layer k v).2) :=
        Prod.ext hresult rfl
      have hstored := stored_write hwf hok
      obtain ⟨hcurrent, -, hfits, layers, hlayers, hcache⟩ := write_eq_ok hok
      rw [hcache] at hstored ⊢
      refine { hwf with layers_iff := ?_, layers_length := ?_, stored_fits := ?_ }
      · intro slot
        simp only [Finmap.mem_insert, hwf.layers_iff]
        refine ⟨?_, Or.inr⟩
        rintro (rfl | hmem)
        · exact Finmap.mem_of_lookup_eq_some hcurrent
        · exact hmem
      · intro slot entries hentries
        by_cases heq : slot = handle.slot
        · subst heq
          simp only [Finmap.lookup_insert, Option.some.injEq] at hentries
          rw [← hentries, List.length_set]
          exact hwf.layers_length _ _ hlayers
        · simp only [Finmap.lookup_insert_of_ne _ heq] at hentries
          exact hwf.layers_length slot entries hentries
      · intro other index entry hentry
        rw [hstored] at hentry
        split at hentry
        · rename_i hboth
          obtain ⟨rfl, rfl⟩ := hboth
          exact Option.some.inj hentry ▸ hfits
        · exact hwf.stored_fits other index entry hentry

end SlabKvCache

end HotBatch
