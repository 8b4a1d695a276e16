import HotBatch.Core.KvCache
import Mathlib.Logic.Function.Basic

/-!
# The slab cache as a family of private maps

The purpose of the cache is stated without slots, free lists or generations: every live handle owns
a private map from layers to the last pair of tensors written there. `PrivateMaps` is that abstract
object, driven only by the calls a client makes and the answers it receives. `Run` is any client
history against a new cache in which handles are never invented, only returned by `allocate`.

The main result says that a cache reached by any such history answers reads from the private map of
the handle, refuses every handle that has been freed, and is left alone by refused calls. Freshness
of handles is what the generation counters are for, so it needs fewer than `2 ^ 64` allocations of
each slot.
-/

namespace HotBatch

/-- A call on the cache. -/
inductive KvCall (τ : Type) where
  | allocate (promptLen maxNew : ℕ)
  | free (handle : KvHandle)
  | write (handle : KvHandle) (layer : ℕ) (k v : τ)
  | read (handle : KvHandle) (layer : ℕ)

/-- The handle a call presents, if any. -/
def KvCall.handle? {τ : Type} : KvCall τ → Option KvHandle
  | .allocate _ _ => none
  | .free handle => some handle
  | .write handle _ _ _ => some handle
  | .read handle _ => some handle

/-- A call together with what the client learns from it. -/
inductive KvEvent (τ : Type) where
  | allocated (handle : KvHandle)
  | freed (handle : KvHandle)
  | written (handle : KvHandle) (layer : ℕ) (k v : τ)
  | silent

/-- Perform one call: the observable event and the new cache. Refused calls and reads are silent,
since they tell the abstract object nothing. -/
def SlabKvCache.perform {τ : Type} [CacheTensor τ] (cache : SlabKvCache τ) :
    KvCall τ → KvEvent τ × SlabKvCache τ
  | .allocate promptLen maxNew =>
      match cache.allocate promptLen maxNew with
      | (.ok handle, cache') => (.allocated handle, cache')
      | (.error _, cache') => (.silent, cache')
  | .free handle => (.freed handle, cache.free handle)
  | .write handle layer k v =>
      match cache.write handle layer k v with
      | (.ok _, cache') => (.written handle layer k v, cache')
      | (.error _, cache') => (.silent, cache')
  | .read _ _ => (.silent, cache)

namespace KvHistory

variable {τ : Type}

/-- Handles returned so far. Histories list the latest event first. -/
def issued : List (KvEvent τ) → List KvHandle
  | [] => []
  | .allocated handle :: events => handle :: issued events
  | _ :: events => issued events

/-- Handles passed to `free` so far. -/
def freed : List (KvEvent τ) → List KvHandle
  | [] => []
  | .freed handle :: events => handle :: freed events
  | _ :: events => freed events

/-- Number of allocations that returned the given slot. -/
def allocationsOf (slot : ℕ) (events : List (KvEvent τ)) : ℕ :=
  (issued events).countP fun handle ↦ handle.slot = slot

/-- The abstract object: each live handle has a map from layers to tensors. -/
abbrev PrivateMaps (τ : Type) := KvHandle → Option (ℕ → Option (τ × τ))

/-- What an event does to the private maps: an allocation starts an empty map, a release discards
the map, and a successful write replaces one layer of one map. -/
def PrivateMaps.update (maps : PrivateMaps τ) : KvEvent τ → PrivateMaps τ
  | .allocated handle => Function.update maps handle (some fun _ ↦ none)
  | .freed handle => Function.update maps handle none
  | .written handle layer k v =>
      Function.update maps handle
        ((maps handle).map fun layers ↦ Function.update layers layer (some (k, v)))
  | .silent => maps

/-- The private maps after a history. -/
def privateMaps : List (KvEvent τ) → PrivateMaps τ
  | [] => fun _ ↦ none
  | event :: events => (privateMaps events).update event

variable [CacheTensor τ]

/-- Histories of a cache: any calls in any order, on handles the cache has returned before. -/
inductive Run (initial : SlabKvCache τ) : List (KvEvent τ) → SlabKvCache τ → Prop
  | start : Run initial [] initial
  | call {events : List (KvEvent τ)} {cache : SlabKvCache τ} (op : KvCall τ)
      (hrun : Run initial events cache) (hissued : ∀ handle ∈ op.handle?, handle ∈ issued events) :
      Run initial ((cache.perform op).1 :: events) (cache.perform op).2

/-- The private map a cache keeps for a handle. -/
def abstraction (cache : SlabKvCache τ) : PrivateMaps τ := fun handle ↦
  if cache.IsCurrentHandle handle then some (cache.stored handle) else none

/-! ## One call refines one abstract update -/

theorem wf_perform {cache : SlabKvCache τ} (hwf : cache.Wf) (op : KvCall τ) :
    (cache.perform op).2.Wf := by
  cases op with
  | allocate promptLen maxNew =>
      simp only [SlabKvCache.perform]
      cases hresult : cache.allocate promptLen maxNew with
      | mk result cache' =>
          cases result with
          | ok handle => exact SlabKvCache.wf_allocate hwf hresult
          | error err =>
              have hsame := SlabKvCache.allocate_error (congrArg Prod.fst hresult)
              rw [hresult] at hsame
              exact hsame ▸ hwf
  | free handle => exact SlabKvCache.wf_free hwf handle
  | write handle layer k v =>
      have hwrite := SlabKvCache.wf_write hwf handle layer k v
      simp only [SlabKvCache.perform]
      cases hresult : cache.write handle layer k v with
      | mk result cache' =>
          rw [hresult] at hwrite
          cases result <;> exact hwrite
  | read handle layer => exact hwf

theorem abstraction_allocate {cache cache' : SlabKvCache τ} (hwf : cache.Wf)
    {promptLen maxNew : ℕ} {handle : KvHandle}
    (hok : cache.allocate promptLen maxNew = (.ok handle, cache')) :
    abstraction cache' = (abstraction cache).update (.allocated handle) := by
  funext other
  have hcurrent := SlabKvCache.isCurrentHandle_allocate hwf hok other
  have hstored := SlabKvCache.stored_allocate hwf hok other
  by_cases heq : other = handle
  · subst heq
    simp only [abstraction, PrivateMaps.update, Function.update_self, hcurrent, true_or, if_true]
    congr 1
    funext layer
    simpa using hstored layer
  · simp only [heq, false_or, if_false] at hcurrent hstored
    simp only [abstraction, PrivateMaps.update, Function.update_of_ne heq, hcurrent]
    rw [funext hstored]

omit [CacheTensor τ] in
theorem abstraction_free (cache : SlabKvCache τ) (handle : KvHandle) :
    abstraction (cache.free handle) = (abstraction cache).update (.freed handle) := by
  funext other
  have hcurrent := SlabKvCache.isCurrentHandle_free cache handle other
  have hstored := SlabKvCache.stored_free cache handle other
  by_cases heq : other = handle
  · subst heq
    simp [abstraction, PrivateMaps.update, hcurrent]
  · simp only [heq, if_false] at hstored
    simp only [abstraction, PrivateMaps.update, Function.update_of_ne heq, hcurrent, ne_eq, heq,
      not_false_eq_true, and_true]
    rw [funext hstored]

theorem abstraction_write {cache cache' : SlabKvCache τ} (hwf : cache.Wf) {handle : KvHandle}
    {layer : ℕ} {k v : τ} (hok : cache.write handle layer k v = (.ok (), cache')) :
    abstraction cache' = (abstraction cache).update (.written handle layer k v) := by
  funext other
  have hcurrent := SlabKvCache.isCurrentHandle_write cache handle other layer k v
  have hstored := SlabKvCache.stored_write hwf hok other
  have hhandle := (SlabKvCache.write_eq_ok hok).1
  rw [hok] at hcurrent
  by_cases heq : other = handle
  · subst heq
    simp only [abstraction, PrivateMaps.update, Function.update_self, hcurrent, hhandle, if_true,
      Option.map_some]
    congr 1
    funext index
    simp only [hstored, true_and, Function.update_apply]
  · simp only [heq, false_and, if_false] at hstored
    simp only [abstraction, PrivateMaps.update, Function.update_of_ne heq, hcurrent]
    rw [funext hstored]

/-- **Refinement.** Every call acts on the private maps exactly as its event says. -/
theorem abstraction_perform {cache : SlabKvCache τ} (hwf : cache.Wf) (op : KvCall τ) :
    abstraction (cache.perform op).2 = (abstraction cache).update (cache.perform op).1 := by
  cases op with
  | allocate promptLen maxNew =>
      simp only [SlabKvCache.perform]
      cases hresult : cache.allocate promptLen maxNew with
      | mk result cache' =>
          cases result with
          | ok handle => exact abstraction_allocate hwf hresult
          | error err =>
              have hsame := SlabKvCache.allocate_error (congrArg Prod.fst hresult)
              rw [hresult] at hsame
              exact congrArg abstraction hsame
  | free handle => exact abstraction_free cache handle
  | write handle layer k v =>
      simp only [SlabKvCache.perform]
      cases hresult : cache.write handle layer k v with
      | mk result cache' =>
          cases result with
          | ok _ => exact abstraction_write hwf hresult
          | error err =>
              have hsame := SlabKvCache.write_error (congrArg Prod.fst hresult)
              rw [hresult] at hsame
              exact congrArg abstraction hsame
  | read handle layer => rfl

/-! ## Whole histories -/

omit [CacheTensor τ] in
/-- A later history has issued at least the handles of an earlier one. -/
theorem allocationsOf_le_cons (slot : ℕ) (event : KvEvent τ) (events : List (KvEvent τ)) :
    allocationsOf slot events ≤ allocationsOf slot (event :: events) := by
  cases event with
  | allocated handle =>
      simp only [allocationsOf, issued, List.countP_cons]
      omega
  | freed handle => exact le_rfl
  | written handle layer k v => exact le_rfl
  | silent => exact le_rfl

/-- What a history guarantees: the cache is in step, its abstraction is the private maps of the
history, generations count allocations, and a freed handle is not current. -/
structure Tracks (events : List (KvEvent τ)) (cache : SlabKvCache τ) : Prop where
  wf : cache.Wf
  maps : abstraction cache = privateMaps events
  generations : ∀ slot < cache.maxSeqs,
    cache.nextGenerations.getD slot 0 = UInt64.ofNat (allocationsOf slot events)
  issued_le : ∀ handle ∈ issued events,
    handle.generation.toNat ≤ allocationsOf handle.slot events
  freed_issued : ∀ handle ∈ freed events, handle ∈ issued events
  live_current : ∀ handle ∈ issued events, handle ∉ freed events → cache.IsCurrentHandle handle
  freed_stale : ∀ handle ∈ freed events, ¬ cache.IsCurrentHandle handle

theorem tracks_new (maxSeqs maxSeqLen numLayers nHeads headDim : ℕ) :
    Tracks [] (SlabKvCache.new (τ := τ) maxSeqs maxSeqLen numLayers nHeads headDim) where
  wf := SlabKvCache.wf_new ..
  maps := by
    funext handle
    simp [abstraction, privateMaps, SlabKvCache.IsCurrentHandle, SlabKvCache.new]
  generations := by
    intro slot hslot
    have hlt : slot < maxSeqs := hslot
    simp [SlabKvCache.new, allocationsOf, issued, List.getD_eq_getElem?_getD, hlt]
  issued_le := by simp [issued]
  freed_issued := by simp [freed]
  live_current := by simp [issued]
  freed_stale := by simp [freed]

/-- The handle of a bounded allocation carries the ordinal of that allocation, so it is new. -/
theorem Tracks.allocate_fresh {events : List (KvEvent τ)} {cache cache' : SlabKvCache τ}
    (htracks : Tracks events cache) {promptLen maxNew : ℕ} {handle : KvHandle}
    (hok : cache.allocate promptLen maxNew = (.ok handle, cache'))
    (hbound : allocationsOf handle.slot (.allocated handle :: events) < 2 ^ 64) :
    handle.generation.toNat = allocationsOf handle.slot (.allocated handle :: events) ∧
      handle ∉ issued events := by
  have hcount : allocationsOf handle.slot (.allocated handle :: events) =
      allocationsOf handle.slot events + 1 := by
    simp [allocationsOf, issued]
  obtain ⟨-, -, rest, hfree, hhandle, -⟩ := SlabKvCache.allocate_eq_ok hok
  have hslot : handle.slot < cache.maxSeqs :=
    htracks.wf.free_lt _ (hfree ▸ List.mem_cons_self)
  have hgeneration : handle.generation =
      UInt64.ofNat (allocationsOf handle.slot events) + 1 := by
    rw [← htracks.generations _ hslot]
    exact congrArg KvHandle.generation hhandle
  have hordinal : handle.generation.toNat = allocationsOf handle.slot events + 1 := by
    rw [hgeneration, UInt64.toNat_add, UInt64.toNat_ofNat']
    simp only [UInt64.toNat_one]
    omega
  refine ⟨hordinal.trans hcount.symm, fun hmem ↦ ?_⟩
  have hle := htracks.issued_le handle hmem
  omega

theorem Tracks.allocate {events : List (KvEvent τ)} {cache cache' : SlabKvCache τ}
    (htracks : Tracks events cache) {promptLen maxNew : ℕ} {handle : KvHandle}
    (hok : cache.allocate promptLen maxNew = (.ok handle, cache'))
    (hbound : ∀ slot, allocationsOf slot (.allocated handle :: events) < 2 ^ 64) :
    Tracks (.allocated handle :: events) cache' := by
  obtain ⟨hordinal, hnew⟩ := htracks.allocate_fresh hok (hbound _)
  have hcurrent := SlabKvCache.isCurrentHandle_allocate htracks.wf hok
  have hwf := SlabKvCache.wf_allocate htracks.wf hok
  have hmaps := abstraction_allocate htracks.wf hok
  obtain ⟨-, -, rest, hfree, hhandle, hcache⟩ := SlabKvCache.allocate_eq_ok hok
  constructor
  case wf => exact hwf
  case maps => rw [hmaps, htracks.maps, privateMaps]
  case generations =>
    intro slot hslot
    rw [hcache] at hslot ⊢
    have hlength : slot < cache.nextGenerations.length := htracks.wf.generations_length ▸ hslot
    have hold := htracks.generations slot hslot
    by_cases heq : slot = handle.slot
    · subst heq
      simp only [List.getD_eq_getElem?_getD, List.getElem?_set_self hlength, Option.getD_some]
      rw [← hordinal, UInt64.ofNat_toNat]
    · simp only [List.getD_eq_getElem?_getD, List.getElem?_set_ne (Ne.symm heq)] at hold ⊢
      rw [hold]
      simp [allocationsOf, issued, Ne.symm heq]
  case issued_le =>
    intro other hother
    rcases List.mem_cons.mp hother with rfl | hother
    · exact hordinal.le
    · exact (htracks.issued_le other hother).trans (allocationsOf_le_cons _ _ _)
  case freed_issued =>
    exact fun other hother ↦ List.mem_cons_of_mem _ (htracks.freed_issued other hother)
  case live_current =>
    intro other hother hlive
    rw [hcurrent]
    rcases List.mem_cons.mp hother with heq | hother
    · exact Or.inl heq
    · exact Or.inr (htracks.live_current other hother hlive)
  case freed_stale =>
    intro other hother
    rw [hcurrent, not_or]
    refine ⟨?_, htracks.freed_stale other hother⟩
    rintro rfl
    exact hnew (htracks.freed_issued _ hother)

theorem Tracks.free {events : List (KvEvent τ)} {cache : SlabKvCache τ}
    (htracks : Tracks events cache) {handle : KvHandle} (hissued : handle ∈ issued events) :
    Tracks (.freed handle :: events) (cache.free handle) := by
  have hcurrent := SlabKvCache.isCurrentHandle_free cache handle
  constructor
  case wf => exact SlabKvCache.wf_free htracks.wf handle
  case maps => rw [abstraction_free, htracks.maps, privateMaps]
  case generations =>
    intro slot hslot
    unfold SlabKvCache.free at hslot ⊢
    split_ifs at hslot ⊢ <;> exact htracks.generations slot hslot
  case issued_le => exact htracks.issued_le
  case freed_issued =>
    intro other hother
    rcases List.mem_cons.mp hother with rfl | hother
    · exact hissued
    · exact htracks.freed_issued other hother
  case live_current =>
    intro other hother hlive
    obtain ⟨hne, hlive⟩ := not_or.mp (fun h ↦ hlive (List.mem_cons.mpr h))
    exact (hcurrent other).mpr ⟨htracks.live_current other hother hlive, hne⟩
  case freed_stale =>
    intro other hother hstill
    obtain ⟨hold, hne⟩ := (hcurrent other).mp hstill
    rcases List.mem_cons.mp hother with heq | hother
    · exact hne heq
    · exact htracks.freed_stale other hother hold

theorem Tracks.write {events : List (KvEvent τ)} {cache cache' : SlabKvCache τ}
    (htracks : Tracks events cache) {handle : KvHandle} {layer : ℕ} {k v : τ}
    (hok : cache.write handle layer k v = (.ok (), cache')) :
    Tracks (.written handle layer k v :: events) cache' := by
  have hwf := SlabKvCache.wf_write htracks.wf handle layer k v
  have hcurrent := fun other ↦ SlabKvCache.isCurrentHandle_write cache handle other layer k v
  have hmaps := abstraction_write htracks.wf hok
  obtain ⟨-, -, -, layers, -, hcache⟩ := SlabKvCache.write_eq_ok hok
  rw [hok] at hwf hcurrent
  constructor
  case wf => exact hwf
  case maps => rw [hmaps, htracks.maps, privateMaps]
  case generations =>
    rw [hcache]
    exact htracks.generations
  case issued_le => exact htracks.issued_le
  case freed_issued => exact htracks.freed_issued
  case live_current =>
    exact fun other hother hlive ↦ (hcurrent other).mpr (htracks.live_current other hother hlive)
  case freed_stale =>
    exact fun other hother hstill ↦ htracks.freed_stale other hother ((hcurrent other).mp hstill)

/-- A silent event changes neither the history's observations nor the cache. -/
theorem Tracks.silent {events : List (KvEvent τ)} {cache : SlabKvCache τ}
    (htracks : Tracks events cache) : Tracks (.silent :: events) cache :=
  { htracks with maps := htracks.maps }

theorem Tracks.perform {events : List (KvEvent τ)} {cache : SlabKvCache τ}
    (htracks : Tracks events cache) (op : KvCall τ)
    (hissued : ∀ handle ∈ op.handle?, handle ∈ issued events)
    (hbound : ∀ slot, allocationsOf slot ((cache.perform op).1 :: events) < 2 ^ 64) :
    Tracks ((cache.perform op).1 :: events) (cache.perform op).2 := by
  cases op with
  | allocate promptLen maxNew =>
      simp only [SlabKvCache.perform] at hbound ⊢
      cases hresult : cache.allocate promptLen maxNew with
      | mk result cache' =>
          rw [hresult] at hbound
          cases result with
          | ok handle => exact htracks.allocate hresult hbound
          | error err =>
              have hsame := SlabKvCache.allocate_error (congrArg Prod.fst hresult)
              rw [hresult] at hsame
              exact hsame ▸ htracks.silent
  | free handle => exact htracks.free (hissued handle rfl)
  | write handle layer k v =>
      simp only [SlabKvCache.perform]
      cases hresult : cache.write handle layer k v with
      | mk result cache' =>
          cases result with
          | ok _ => exact htracks.write hresult
          | error err =>
              have hsame := SlabKvCache.write_error (congrArg Prod.fst hresult)
              rw [hresult] at hsame
              exact hsame ▸ htracks.silent
  | read handle layer => exact htracks.silent

/-- Every bounded history is tracked, by induction on the calls. -/
theorem Run.tracks {maxSeqs maxSeqLen numLayers nHeads headDim : ℕ} {events : List (KvEvent τ)}
    {cache : SlabKvCache τ}
    (hrun : Run (.new maxSeqs maxSeqLen numLayers nHeads headDim) events cache)
    (hbound : ∀ slot, allocationsOf slot events < 2 ^ 64) : Tracks events cache := by
  induction hrun with
  | start => exact tracks_new ..
  | call op _ hissued ih =>
      have hbefore := ih fun slot ↦ (allocationsOf_le_cons slot _ _).trans_lt (hbound slot)
      exact hbefore.perform op hissued hbound

/-- Every cache a history reaches is well-formed. -/
theorem Run.wf {maxSeqs maxSeqLen numLayers nHeads headDim : ℕ} {events : List (KvEvent τ)}
    {cache : SlabKvCache τ} (hrun : Run (.new maxSeqs maxSeqLen numLayers nHeads headDim) events cache) :
    cache.Wf := by
  induction hrun with
  | start => exact SlabKvCache.wf_new _ _ _ _ _
  | call op _ _ ih => exact wf_perform ih op

theorem perform_numLayers (cache : SlabKvCache τ) (op : KvCall τ) :
    (cache.perform op).2.numLayers = cache.numLayers ∧
    (cache.perform op).2.nHeads = cache.nHeads ∧
    (cache.perform op).2.headDim = cache.headDim := by
  cases op with
  | allocate promptLen maxNew =>
      simp only [SlabKvCache.perform]
      cases hresult : cache.allocate promptLen maxNew with
      | mk result cache' =>
          cases result with
          | ok handle =>
              obtain ⟨-, -, rest, -, -, rfl⟩ := SlabKvCache.allocate_eq_ok hresult
              exact ⟨rfl, rfl, rfl⟩
          | error err =>
              have hsame := SlabKvCache.allocate_error (congrArg Prod.fst hresult)
              rw [hresult] at hsame
              exact hsame ▸ ⟨rfl, rfl, rfl⟩
  | free handle =>
      simp only [SlabKvCache.perform, SlabKvCache.free]
      split_ifs <;> exact ⟨rfl, rfl, rfl⟩
  | write handle layer k v =>
      have hframe := SlabKvCache.write_frame cache handle layer k v
      simp only [SlabKvCache.perform]
      cases hresult : cache.write handle layer k v with
      | mk result cache' =>
          rw [hresult] at hframe
          cases result <;> exact hframe ▸ ⟨rfl, rfl, rfl⟩
  | read handle layer => exact ⟨rfl, rfl, rfl⟩

/-- No call changes the shape parameters of a cache. -/
theorem Run.shape {initial cache : SlabKvCache τ} {events : List (KvEvent τ)}
    (hrun : Run initial events cache) :
    cache.numLayers = initial.numLayers ∧ cache.nHeads = initial.nHeads ∧
      cache.headDim = initial.headDim := by
  induction hrun with
  | start => exact ⟨rfl, rfl, rfl⟩
  | call op _ _ ih =>
      obtain ⟨hlayers, hheads, hdim⟩ := perform_numLayers _ op
      exact ⟨hlayers.trans ih.1, hheads.trans ih.2.1, hdim.trans ih.2.2⟩

/-- **The slab cache refines private maps.** After any history with fewer than `2 ^ 64` allocations
per slot, a live handle reads its own private map in every layer of the cache, a freed handle is
refused by `read` and `write` and ignored by `free`, and refused allocations and writes leave the
cache as it was. -/
theorem slab_refines_private_maps {maxSeqs maxSeqLen numLayers nHeads headDim : ℕ}
    {events : List (KvEvent τ)} {cache : SlabKvCache τ}
    (hrun : Run (.new maxSeqs maxSeqLen numLayers nHeads headDim) events cache)
    (hbound : ∀ slot, allocationsOf slot events < 2 ^ 64) :
    (∀ handle ∈ issued events, handle ∉ freed events →
      ∃ own, privateMaps events handle = some own ∧
        ∀ layer < numLayers, cache.read handle layer = .ok ((own layer).getD
          (CacheTensor.zeros nHeads 0 headDim, CacheTensor.zeros nHeads 0 headDim))) ∧
    (∀ handle ∈ freed events,
      (∀ layer, ∃ err, cache.read handle layer = .error err) ∧
      (∀ layer k v, ∃ err, (cache.write handle layer k v).1 = .error err) ∧
      cache.free handle = cache) ∧
    (∀ promptLen maxNew err, (cache.allocate promptLen maxNew).1 = .error err →
      (cache.allocate promptLen maxNew).2 = cache) ∧
    (∀ handle layer k v err, (cache.write handle layer k v).1 = .error err →
      (cache.write handle layer k v).2 = cache) := by
  have htracks := hrun.tracks hbound
  obtain ⟨hlayers, hheads, hdim⟩ := hrun.shape
  refine ⟨?_, ?_, ?_, ?_⟩
  · intro handle hissued hlive
    have hcurrent := htracks.live_current handle hissued hlive
    refine ⟨cache.stored handle, ?_, ?_⟩
    · rw [← htracks.maps, abstraction, if_pos hcurrent]
    · intro layer hlayer
      have hin : layer < cache.numLayers := hlayers ▸ hlayer
      rw [SlabKvCache.read_of_current htracks.wf hcurrent hin, hheads, hdim]
      rfl
  · intro handle hfreed
    have hstale := htracks.freed_stale handle hfreed
    refine ⟨fun layer ↦ ⟨_, SlabKvCache.read_of_not_current hstale layer⟩, ?_,
      SlabKvCache.free_of_not_current hstale⟩
    intro layer k v
    exact ⟨_, congrArg Prod.fst (SlabKvCache.write_of_not_current hstale layer k v)⟩
  · exact fun _ _ _ ↦ SlabKvCache.allocate_error
  · exact fun _ _ _ _ _ ↦ SlabKvCache.write_error

end KvHistory

/-! ## A concrete client -/

/-- Tensors without contents: enough to run the cache. -/
structure ShapeTensor where
  dims : List ℕ
  deriving DecidableEq, Repr

instance : CacheTensor ShapeTensor where
  dims := ShapeTensor.dims
  zeros heads tokens headDim := ⟨[heads, tokens, headDim]⟩
  dims_zeros _ _ _ := rfl

namespace KvHistory

/-- The calls of a client that fills the only slot of a one-layer cache, frees it and takes it
again. -/
def reuseCalls : List (KvCall ShapeTensor) :=
  [.allocate 3 1, .write ⟨0, 4, 1⟩ 0 ⟨[1, 3, 1]⟩ ⟨[1, 3, 1]⟩, .free ⟨0, 4, 1⟩, .allocate 2 2]

/-- The history and the cache those calls produce. -/
def reuse : List (KvEvent ShapeTensor) × SlabKvCache ShapeTensor :=
  reuseCalls.foldl (fun history op ↦
    ((history.2.perform op).1 :: history.1, (history.2.perform op).2)) ([], .new 1 4 1 1 1)

theorem run_reuse : Run (.new 1 4 1 1 1) reuse.1 reuse.2 := by
  have hstart : Run (.new 1 4 1 1 1) ([] : List (KvEvent ShapeTensor)) (.new 1 4 1 1 1) := Run.start
  have hallocate := Run.call (.allocate 3 1) hstart (by simp [KvCall.handle?])
  have hwrite := Run.call (.write ⟨0, 4, 1⟩ 0 ⟨[1, 3, 1]⟩ ⟨[1, 3, 1]⟩) hallocate (by decide)
  have hfree := Run.call (.free ⟨0, 4, 1⟩) hwrite (by decide)
  exact Run.call (.allocate 2 2) hfree (by simp [KvCall.handle?])

theorem allocationsOf_reuse_lt (slot : ℕ) : allocationsOf slot reuse.1 < 2 ^ 64 := by
  have hle : allocationsOf slot reuse.1 ≤ (issued reuse.1).length := List.countP_le_length
  have hlength : (issued reuse.1).length = 2 := by decide
  omega

/-- The second owner of the slot reads empty blocks; the first one is refused. -/
theorem slab_refines_private_maps_reuse :
    reuse.2.read ⟨0, 4, 2⟩ 0 = .ok (⟨[1, 0, 1]⟩, ⟨[1, 0, 1]⟩) ∧
      ∃ err, reuse.2.read ⟨0, 4, 1⟩ 0 = .error err := by
  obtain ⟨hlive, hfreed, -, -⟩ := slab_refines_private_maps run_reuse allocationsOf_reuse_lt
  obtain ⟨own, hown, hread⟩ := hlive ⟨0, 4, 2⟩ (by decide) (by decide)
  refine ⟨?_, (hfreed ⟨0, 4, 1⟩ (by decide)).1 0⟩
  have hempty : own 0 = none := by
    have hsame : privateMaps reuse.1 ⟨0, 4, 2⟩ = some fun _ ↦ none := by
      have hcons : reuse.1 = .allocated ⟨0, 4, 2⟩ :: reuse.1.tail := rfl
      rw [hcons, privateMaps, PrivateMaps.update, Function.update_self]
    rw [hown] at hsame
    exact congrFun (Option.some.inj hsame) 0
  rw [hread 0 (by decide), hempty]
  rfl

/-- The layer bound matters: a live handle is refused at a layer the cache does not have, although
nothing was ever written there. -/
theorem read_beyond_last_layer :
    ¬ ∀ (events : List (KvEvent ShapeTensor)) (cache : SlabKvCache ShapeTensor),
      Run (.new 1 4 1 1 1) events cache → (∀ slot, allocationsOf slot events < 2 ^ 64) →
      ∀ handle ∈ issued events, handle ∉ freed events →
        ∃ own, privateMaps events handle = some own ∧
          ∀ layer, cache.read handle layer = .ok ((own layer).getD
            (CacheTensor.zeros 1 0 1, CacheTensor.zeros 1 0 1)) := by
  intro hclaim
  obtain ⟨own, -, hread⟩ := hclaim reuse.1 reuse.2 run_reuse allocationsOf_reuse_lt
    ⟨0, 4, 2⟩ (by decide) (by decide)
  have herror : reuse.2.read ⟨0, 4, 2⟩ 1 = .error (.layerOutOfRange 1 1) := by rfl
  rw [hread 1] at herror
  cases herror

end KvHistory

end HotBatch
