import HotBatch.Core.PrivatePass
import HotBatch.Core.RationalKernels
import HotBatch.Scheduler.Steps

/-!
# Slot accounting

Every allocated slot belongs to a sequence that the scheduler holds: one of `running`, or the one
that is being admitted. The invariant is about the program counter, `running` and the cache only,
so that the actions of everybody else keep it for trivial reasons. Its second half says where in a
loop over `running` a sequence may already be done; at the ends of the phases there is none.
-/

namespace HotBatch

namespace Scheduler

variable {α : Type}

/-- The sequence that is being admitted, from `Sequence::new` until it is pushed or released. -/
def Site.candidate : Site α → Option (Sequence α)
  | allocated seq | prefilled seq => some seq
  | removing _ | popped _ | delivering _ _ => none

def Site.pending : Site α → List (GenerationRequest α)
  | popped req => [req]
  | removing _ | allocated _ | prefilled _ | delivering _ _ => []

/-- The sequence at this index has not been reached by the loop that is under way. -/
def Site.Unvisited : Site α → ℕ → Prop
  | removing index, other | delivering index _, other => index ≤ other
  | popped _, _ | allocated _, _ | prefilled _, _ => True

/-- Number of places of `running` promised to the request that is being admitted. -/
def Site.promised : Site α → ℕ
  | popped _ | allocated _ | prefilled _ => 1
  | removing _ | delivering _ _ => 0

namespace Pc

def candidate : Pc α → Option (Sequence α)
  | checkDone site | checkClosed site _ => site.candidate
  | prefill seq => some seq
  | _ => none

/-- The requests that the scheduler has taken out of the queue and still holds as requests. -/
def pending : Pc α → List (GenerationRequest α)
  | checkDone site | checkClosed site _ => site.pending
  | admitRequest req => [req]
  | answerQueued drained => drained
  | _ => []

def Unvisited : Pc α → ℕ → Prop
  | checkDone site, other | checkClosed site _, other => site.Unvisited other
  | evict index, other | failBatch index _, other | sampleToken index _, other => index ≤ other
  | sendItems index _ _, other => index < other
  | panicked, _ => False
  | _, _ => True

def promised : Pc α → ℕ
  | checkDone site | checkClosed site _ => site.promised
  | admitRequest _ | prefill _ => 1
  | _ => 0

/-- The head of the loop, the end of admission, the wait for work, and a model pass. -/
def AtBoundary : Pc α → Prop
  | loopHead | evict 0 | idleCheck | parked | forward => True
  | _ => False

end Pc

/-- The allocated slots are those of the sequences that the scheduler holds, in a cache built like
`origin`. -/
structure Slots (scheduler : Scheduler α) (origin : SlabKvCache (KvTensor α)) (pc : Pc α) (running : List (Sequence α))
    (kvCache : SlabKvCache (KvTensor α)) [Zero α] : Prop where
  wf : kvCache.Wf
  sameShape : kvCache.SameShape origin
  current_iff : ∀ handle, kvCache.IsCurrentHandle handle ↔
    handle ∈ (running ++ pc.candidate.toList).map Sequence.kvHandle
  nodup : ((running ++ pc.candidate.toList).map Sequence.kvHandle).Nodup
  length_le : running.length + pc.promised ≤ scheduler.config.maxRunningSeqs
  notDone : ∀ index seq, pc.Unvisited index → running[index]? = some seq → seq.isDone = false
  candidate_notDone : ∀ seq ∈ pc.candidate, seq.isDone = false

section Lists

variable {β γ : Type}

theorem modify_eq_set {values : List β} {index : ℕ} {value : β} (hvalue : values[index]? = some value)
    (f : β → β) : values.modify index f = values.set index (f value) := by
  obtain ⟨hlt, rfl⟩ := List.getElem?_eq_some_iff.mp hvalue
  rw [List.modify_eq_take_cons_drop hlt, List.set_eq_take_append_cons_drop, if_pos hlt]

/-- Replacing an entry is not seen by a function that does not tell the two apart. -/
theorem map_set_eq {values : List β} {index : ℕ} {value other : β} (g : β → γ)
    (hvalue : values[index]? = some value) (hg : g other = g value) :
    (values.set index other).map g = values.map g := by
  obtain ⟨hlt, rfl⟩ := List.getElem?_eq_some_iff.mp hvalue
  rw [List.map_set, hg, ← List.getElem_map (f := g) (h := by simpa using hlt),
    List.set_getElem_self]

theorem mem_modify {values : List β} {index : ℕ} {f : β → β} {value : β}
    (hmem : value ∈ values.modify index f) : ∃ before ∈ values, value = before ∨ value = f before := by
  cases hvalue : values[index]? with
  | none =>
      rw [List.modify_eq_self (List.getElem?_eq_none_iff.mp hvalue)] at hmem
      exact ⟨value, hmem, Or.inl rfl⟩
  | some before =>
      rw [modify_eq_set hvalue] at hmem
      rcases List.mem_or_eq_of_mem_set hmem with hold | rfl
      · exact ⟨value, hold, Or.inl rfl⟩
      · exact ⟨before, List.mem_of_getElem? hvalue, Or.inr rfl⟩

theorem map_modify_eq (values : List β) (index : ℕ) {f : β → β} {g : β → γ}
    (hg : ∀ value, g (f value) = g value) : (values.modify index f).map g = values.map g := by
  apply List.ext_getElem?
  intro other
  rw [List.getElem?_map, List.getElem?_map, List.getElem?_modify]
  cases values[other]? with
  | none => rfl
  | some value =>
      by_cases heq : index = other
      · simp [heq, hg]
      · simp [heq]

end Lists

section Cache

variable [Zero α] {kvCache : SlabKvCache (KvTensor α)}

theorem wf_freeSequences (hwf : kvCache.Wf) (done : List (Sequence α)) :
    (State.freeSequences done kvCache).Wf := by
  induction done generalizing kvCache with
  | nil => exact hwf
  | cons seq done ih => exact ih (SlabKvCache.wf_free hwf seq.kvHandle)

omit [Zero α] in
theorem sameShape_freeSequences (done : List (Sequence α)) :
    (State.freeSequences done kvCache).SameShape kvCache := by
  induction done generalizing kvCache with
  | nil => exact .refl kvCache
  | cons seq done ih => exact ih.trans (SlabKvCache.sameShape_free seq.kvHandle kvCache)

omit [Zero α] in
theorem stored_freeSequences (done : List (Sequence α)) {handle : KvHandle}
    (hkept : handle ∉ done.map Sequence.kvHandle) :
    (State.freeSequences done kvCache).stored handle = kvCache.stored handle := by
  induction done generalizing kvCache with
  | nil => rfl
  | cons seq done ih =>
      rw [List.map_cons, List.mem_cons, not_or] at hkept
      refine (ih hkept.2).trans ?_
      funext layer
      rw [SlabKvCache.stored_free, if_neg hkept.1]

omit [Zero α] in
theorem isCurrentHandle_freeSequences (done : List (Sequence α)) (handle : KvHandle) :
    (State.freeSequences done kvCache).IsCurrentHandle handle ↔
      kvCache.IsCurrentHandle handle ∧ handle ∉ done.map Sequence.kvHandle := by
  induction done generalizing kvCache with
  | nil => simp [State.freeSequences]
  | cons seq done ih =>
      have hstep : (State.freeSequences done (kvCache.free seq.kvHandle)).IsCurrentHandle handle ↔ _ := ih
      rw [SlabKvCache.isCurrentHandle_free] at hstep
      rw [List.map_cons, List.mem_cons, not_or, ← and_assoc]
      exact hstep

omit [Zero α] in
/-- Distinct handles that are all current belong to distinct slots. -/
theorem nodup_slots {seqs : List (Sequence α)} (hnodup : (seqs.map Sequence.kvHandle).Nodup)
    (hcurrent : ∀ handle ∈ seqs.map Sequence.kvHandle, kvCache.IsCurrentHandle handle) :
    ((seqs.map Sequence.kvHandle).map KvHandle.slot).Nodup :=
  hnodup.map_on fun left hleft right hright hslot ↦
    SlabKvCache.eq_of_current_of_slot_eq (hcurrent left hleft) (hcurrent right hright) hslot

/-- There are no more distinct current handles than slots. -/
theorem length_le_maxSeqs {seqs : List (Sequence α)} (hwf : kvCache.Wf)
    (hnodup : (seqs.map Sequence.kvHandle).Nodup)
    (hcurrent : ∀ handle ∈ seqs.map Sequence.kvHandle, kvCache.IsCurrentHandle handle) :
    seqs.length ≤ kvCache.maxSeqs := by
  have hsubset : (seqs.map Sequence.kvHandle).map KvHandle.slot ⊆ List.range kvCache.maxSeqs := by
    intro slot hslot
    obtain ⟨handle, hhandle, rfl⟩ := List.mem_map.mp hslot
    exact List.mem_range.mpr (hwf.slot_lt (hcurrent handle hhandle))
  have hle := (List.subperm_of_subset (nodup_slots hnodup hcurrent) hsubset).length_le
  rwa [List.length_map, List.length_map, List.length_range] at hle

end Cache

namespace Slots

variable [Zero α] {scheduler : Scheduler α} {origin : SlabKvCache (KvTensor α)} {pc pc' : Pc α} {running running' : List (Sequence α)}
  {kvCache kvCache' : SlabKvCache (KvTensor α)}

theorem init (maxSeqs maxSeqLen numLayers nHeads headDim : ℕ) :
    Slots scheduler (.new maxSeqs maxSeqLen numLayers nHeads headDim) .loopHead []
      (.new maxSeqs maxSeqLen numLayers nHeads headDim) where
  wf := SlabKvCache.wf_new _ _ _ _ _
  sameShape := .refl _
  current_iff := by
    intro handle
    simp [SlabKvCache.IsCurrentHandle, SlabKvCache.new, Pc.candidate]
  nodup := List.nodup_nil
  length_le := Nat.zero_le _
  notDone := fun index seq _ hseq ↦ nomatch hseq
  candidate_notDone := fun seq hseq ↦ nomatch hseq

theorem current (hslots : Slots scheduler origin pc running kvCache) {seq : Sequence α}
    (hseq : seq ∈ running) : kvCache.IsCurrentHandle seq.kvHandle :=
  (hslots.current_iff _).mpr (List.mem_map_of_mem (List.mem_append_left _ hseq))

theorem current_handles (hslots : Slots scheduler origin pc running kvCache) :
    ∀ handle ∈ running.map Sequence.kvHandle, kvCache.IsCurrentHandle handle := by
  intro handle hhandle
  obtain ⟨seq, hseq, rfl⟩ := List.mem_map.mp hhandle
  exact hslots.current hseq

theorem current_candidate (hslots : Slots scheduler origin pc running kvCache) {seq : Sequence α}
    (hcandidate : pc.candidate = some seq) : kvCache.IsCurrentHandle seq.kvHandle := by
  apply (hslots.current_iff _).mpr
  rw [hcandidate]
  exact List.mem_map_of_mem (List.mem_append_right _ (List.mem_singleton_self seq))

theorem nodup_running (hslots : Slots scheduler origin pc running kvCache) :
    (running.map Sequence.kvHandle).Nodup := by
  have hnodup := hslots.nodup
  rw [List.map_append] at hnodup
  exact hnodup.of_append_left

/-- The rows of a decode pass have current handles. -/
theorem current_decodeInputs (hslots : Slots scheduler origin pc running kvCache) :
    ∀ input ∈ running.map Sequence.decodeInput, kvCache.IsCurrentHandle input.kvHandle := by
  intro input hinput
  obtain ⟨seq, hseq, rfl⟩ := List.mem_map.mp hinput
  exact hslots.current hseq

/-- The rows of a decode pass have distinct handles. -/
theorem nodup_decodeInputs (hslots : Slots scheduler origin pc running kvCache) :
    ((running.map Sequence.decodeInput).map DecodeInput.kvHandle).Nodup := by
  rw [List.map_map]
  exact hslots.nodup_running

/-- Where no loop is under way, no sequence of `running` is done. -/
theorem all_notDone (hslots : Slots scheduler origin pc running kvCache)
    (hall : ∀ index, pc.Unvisited index) : ∀ seq ∈ running, seq.isDone = false := by
  intro seq hseq
  obtain ⟨index, hindex⟩ := List.mem_iff_getElem?.mp hseq
  exact hslots.notDone index seq (hall index) hindex

theorem notDone_at (hslots : Slots scheduler origin pc running kvCache) (hpc : pc = pc') {index : ℕ}
    {seq : Sequence α} (hseq : running[index]? = some seq) (hunvisited : pc'.Unvisited index) :
    seq.isDone = false := by
  subst hpc
  exact hslots.notDone index seq hunvisited hseq

/-- The candidate's handle is not one of `running`. -/
theorem candidate_ne (hslots : Slots scheduler origin pc running kvCache) {seq other : Sequence α}
    (hcandidate : pc.candidate = some seq) (hother : other ∈ running) :
    other.kvHandle ≠ seq.kvHandle := by
  have hnodup := hslots.nodup
  rw [hcandidate, List.map_append, Option.toList_some, List.map_singleton] at hnodup
  intro heq
  exact List.disjoint_singleton.mp (List.disjoint_of_nodup_append hnodup)
    (heq ▸ List.mem_map_of_mem hother)

/-- A step that moves only the program counter. -/
theorem goto (hslots : Slots scheduler origin pc running kvCache) (hcandidate : pc'.candidate = pc.candidate)
    (hpromised : pc'.promised ≤ pc.promised)
    (hunvisited : ∀ index, pc'.Unvisited index → pc.Unvisited index) :
    Slots scheduler origin pc' running kvCache where
  wf := hslots.wf
  sameShape := hslots.sameShape
  current_iff := by
    rw [hcandidate]
    exact hslots.current_iff
  nodup := by
    rw [hcandidate]
    exact hslots.nodup
  length_le := (Nat.add_le_add_left hpromised _).trans hslots.length_le
  notDone := fun index seq hindex ↦ hslots.notDone index seq (hunvisited index hindex)
  candidate_notDone := by
    rw [hcandidate]
    exact hslots.candidate_notDone

/-- A step that changes sequences without changing their handles. -/
theorem replace (hslots : Slots scheduler origin pc running kvCache)
    (hhandles : running'.map Sequence.kvHandle = running.map Sequence.kvHandle)
    (hcandidate : pc'.candidate = pc.candidate) (hpromised : pc'.promised ≤ pc.promised)
    (hunvisited : ∀ index seq, pc'.Unvisited index → running'[index]? = some seq →
      running[index]? = some seq ∧ pc.Unvisited index) :
    Slots scheduler origin pc' running' kvCache where
  wf := hslots.wf
  sameShape := hslots.sameShape
  current_iff := by
    rw [hcandidate, List.map_append, hhandles, ← List.map_append]
    exact hslots.current_iff
  nodup := by
    rw [hcandidate, List.map_append, hhandles, ← List.map_append]
    exact hslots.nodup
  length_le := by
    have hlength : running'.length = running.length := by
      rw [← List.length_map (f := Sequence.kvHandle), hhandles, List.length_map]
    rw [hlength]
    exact (Nat.add_le_add_left hpromised _).trans hslots.length_le
  notDone := by
    intro index seq hindex hseq
    obtain ⟨hold, hbefore⟩ := hunvisited index seq hindex hseq
    exact hslots.notDone index seq hbefore hold
  candidate_notDone := by
    rw [hcandidate]
    exact hslots.candidate_notDone

/-- The candidate changes but keeps its handle. -/
theorem swap (hslots : Slots scheduler origin pc running kvCache) {seq seq' : Sequence α}
    (hcandidate : pc.candidate = some seq) (hcandidate' : pc'.candidate = some seq')
    (hhandle : seq'.kvHandle = seq.kvHandle) (hdone : seq'.isDone = seq.isDone)
    (hpromised : pc'.promised ≤ pc.promised)
    (hunvisited : ∀ index, pc'.Unvisited index → pc.Unvisited index) :
    Slots scheduler origin pc' running kvCache where
  wf := hslots.wf
  sameShape := hslots.sameShape
  current_iff := by
    have hiff := hslots.current_iff
    rw [hcandidate, List.map_append, Option.toList_some, List.map_singleton] at hiff
    rwa [hcandidate', List.map_append, Option.toList_some, List.map_singleton, hhandle]
  nodup := by
    have hnodup := hslots.nodup
    rw [hcandidate, List.map_append, Option.toList_some, List.map_singleton] at hnodup
    rwa [hcandidate', List.map_append, Option.toList_some, List.map_singleton, hhandle]
  length_le := (Nat.add_le_add_left hpromised _).trans hslots.length_le
  notDone := fun index other hindex ↦ hslots.notDone index other (hunvisited index hindex)
  candidate_notDone := by
    rw [hcandidate']
    intro other hother
    obtain rfl := Option.mem_some_iff.mp hother
    rw [hdone]
    exact hslots.candidate_notDone seq (hcandidate ▸ Option.mem_some_self _)

/-- One sequence of `running` is cancelled or failed, and the loop goes on behind it. -/
theorem modify (hslots : Slots scheduler origin pc running kvCache) (index : ℕ) {f : Sequence α → Sequence α}
    (hf : ∀ seq, (f seq).kvHandle = seq.kvHandle) (hcandidate : pc'.candidate = pc.candidate)
    (hpromised : pc'.promised ≤ pc.promised)
    (hunvisited : ∀ other, pc'.Unvisited other → index < other ∧ pc.Unvisited other) :
    Slots scheduler origin pc' (running.modify index f) kvCache := by
  apply hslots.replace (map_modify_eq running index hf) hcandidate hpromised
  intro other seq hother hseq
  obtain ⟨hlt, hbefore⟩ := hunvisited other hother
  rw [List.getElem?_modify_ne _ _ (Nat.ne_of_lt hlt)] at hseq
  exact ⟨hseq, hbefore⟩

/-- A model pass is confined to what is stored for its handles. -/
theorem confined (hslots : Slots scheduler origin pc running kvCache) {handles : List KvHandle}
    (hconfined : ConfinedTo handles kvCache kvCache') : Slots scheduler origin pc running kvCache' where
  wf := hconfined.wf
  sameShape := hconfined.sameShape.trans hslots.sameShape
  current_iff := fun handle ↦ (hconfined.isCurrentHandle_iff handle).trans (hslots.current_iff handle)
  nodup := hslots.nodup
  length_le := hslots.length_le
  notDone := hslots.notDone
  candidate_notDone := hslots.candidate_notDone

/-- After reaping, the sequences that are left are not done and hold all slots. -/
theorem reap (hslots : Slots scheduler origin pc running kvCache) (hcandidate : pc.candidate = none)
    (hnone : pc'.candidate = none) (hpromised : pc'.promised = 0) :
    Slots scheduler origin pc' (running.filter fun seq ↦ !seq.isDone)
      (State.freeSequences (running.filter Sequence.isDone) kvCache) where
  wf := wf_freeSequences hslots.wf _
  sameShape := (sameShape_freeSequences _).trans hslots.sameShape
  current_iff := by
    intro handle
    have hnodup := hslots.nodup_running
    rw [isCurrentHandle_freeSequences, hslots.current_iff, hcandidate, hnone]
    simp only [Option.toList_none, List.append_nil, List.mem_map, List.mem_filter]
    constructor
    · rintro ⟨⟨seq, hseq, rfl⟩, hkept⟩
      refine ⟨seq, ⟨hseq, ?_⟩, rfl⟩
      by_contra hdone
      exact hkept ⟨seq, ⟨hseq, by simpa using hdone⟩, rfl⟩
    · rintro ⟨seq, ⟨hseq, hnot⟩, rfl⟩
      refine ⟨⟨seq, hseq, rfl⟩, ?_⟩
      rintro ⟨other, ⟨hother, hdone⟩, hsame⟩
      obtain rfl := List.inj_on_of_nodup_map hnodup hother hseq hsame
      simp [hdone] at hnot
  nodup := by
    rw [hnone, Option.toList_none, List.append_nil]
    exact hslots.nodup_running.sublist (List.filter_sublist.map _)
  length_le := by
    rw [hpromised]
    exact (List.length_filter_le _ _).trans (Nat.le_of_add_right_le hslots.length_le)
  notDone := by
    intro index seq _ hseq
    have hmem := List.mem_filter.mp (List.mem_of_getElem? hseq)
    simpa using hmem.2
  candidate_notDone := by
    rw [hnone]
    exact fun seq hseq ↦ nomatch hseq

/-- `Sequence::new` gives the request a slot that nobody else holds. -/
theorem allocate (hslots : Slots scheduler origin pc running kvCache) (hcandidate : pc.candidate = none)
    {promptLen maxNew : ℕ} {seq : Sequence α}
    (hallocate : kvCache.allocate promptLen maxNew = (.ok seq.kvHandle, kvCache'))
    (hseq : pc'.candidate = some seq) (hnotDone : seq.isDone = false)
    (hpromised : pc'.promised ≤ pc.promised)
    (hunvisited : ∀ index, pc'.Unvisited index → pc.Unvisited index) :
    Slots scheduler origin pc' running kvCache' where
  wf := SlabKvCache.wf_allocate hslots.wf hallocate
  sameShape := (SlabKvCache.sameShape_allocate hallocate).trans hslots.sameShape
  current_iff := by
    intro handle
    rw [SlabKvCache.isCurrentHandle_allocate hslots.wf hallocate, hslots.current_iff, hcandidate,
      hseq, List.map_append, List.map_append, List.mem_append, List.mem_append]
    simp [or_comm]
  nodup := by
    have hfresh := SlabKvCache.allocate_slot_fresh hslots.wf hallocate
    rw [hseq, List.map_append]
    refine hslots.nodup_running.append (List.nodup_singleton _) ?_
    rw [Option.toList_some, List.map_singleton, List.disjoint_singleton]
    intro hmem
    obtain ⟨other, hother, hsame⟩ := List.mem_map.mp hmem
    exact hfresh (Finmap.mem_of_lookup_eq_some (hsame ▸ hslots.current hother))
  length_le := (Nat.add_le_add_left hpromised _).trans hslots.length_le
  notDone := fun index other hindex ↦ hslots.notDone index other (hunvisited index hindex)
  candidate_notDone := by
    rw [hseq]
    intro other hother
    obtain rfl := Option.mem_some_iff.mp hother
    exact hnotDone

/-- A candidate that is given up leaves the slots of `running`. -/
theorem release (hslots : Slots scheduler origin pc running kvCache) {seq : Sequence α} {handle : KvHandle}
    (hcandidate : pc.candidate = some seq) (hhandle : handle = seq.kvHandle)
    (hnone : pc'.candidate = none) (hpromised : pc'.promised = 0)
    (hunvisited : ∀ index, pc'.Unvisited index → pc.Unvisited index) :
    Slots scheduler origin pc' running (kvCache.free handle) where
  wf := SlabKvCache.wf_free hslots.wf handle
  sameShape := (SlabKvCache.sameShape_free handle kvCache).trans hslots.sameShape
  current_iff := by
    intro other
    have hnodup := hslots.nodup
    rw [hcandidate, List.map_append, Option.toList_some, List.map_singleton] at hnodup
    have hdisjoint := List.disjoint_singleton.mp (List.disjoint_of_nodup_append hnodup)
    rw [SlabKvCache.isCurrentHandle_free, hslots.current_iff, hcandidate, hnone, hhandle,
      List.map_append, List.map_append, List.mem_append, List.mem_append]
    simp only [Option.toList_some, List.map_singleton, List.mem_singleton, Option.toList_none,
      List.map_nil, List.not_mem_nil, or_false]
    constructor
    · rintro ⟨hmem | heq, hne⟩
      · exact hmem
      · exact absurd heq hne
    · intro hmem
      refine ⟨Or.inl hmem, ?_⟩
      rintro rfl
      exact hdisjoint hmem
  nodup := by
    rw [hnone, Option.toList_none, List.append_nil]
    exact hslots.nodup_running
  length_le := by
    rw [hpromised]
    exact Nat.le_of_add_right_le hslots.length_le
  notDone := fun index other hindex ↦ hslots.notDone index other (hunvisited index hindex)
  candidate_notDone := by
    rw [hnone]
    exact fun other hother ↦ nomatch hother

/-- A candidate that joins `running` keeps its slot. -/
theorem push (hslots : Slots scheduler origin pc running kvCache) {seq : Sequence α}
    (hcandidate : pc.candidate = some seq) (hpromised : pc.promised = 1)
    (hall : ∀ index, pc.Unvisited index) (hnone : pc'.candidate = none) (hpromised' : pc'.promised = 0) :
    Slots scheduler origin pc' (running ++ [seq]) kvCache where
  wf := hslots.wf
  sameShape := hslots.sameShape
  current_iff := by
    rw [hnone, Option.toList_none, List.append_nil]
    have hiff := hslots.current_iff
    rwa [hcandidate] at hiff
  nodup := by
    rw [hnone, Option.toList_none, List.append_nil]
    have hnodup := hslots.nodup
    rwa [hcandidate] at hnodup
  length_le := by
    have hle := hslots.length_le
    rw [hpromised] at hle
    rw [hpromised', List.length_append]
    exact hle
  notDone := by
    intro index other _ hother
    rcases List.mem_append.mp (List.mem_of_getElem? hother) with hmem | hmem
    · obtain ⟨position, hposition⟩ := List.mem_iff_getElem?.mp hmem
      exact hslots.notDone position other (hall position) hposition
    · obtain rfl := List.mem_singleton.mp hmem
      exact hslots.candidate_notDone other (hcandidate ▸ Option.mem_some_self _)
  candidate_notDone := by
    rw [hnone]
    exact fun other hother ↦ nomatch hother

/-- At shutdown the first sequence is answered, dropped and its slot freed. -/
theorem drain {seq : Sequence α} (hslots : Slots scheduler origin pc (seq :: running) kvCache)
    (hcandidate : pc.candidate = none) (hall : ∀ index, pc.Unvisited index) :
    Slots scheduler origin pc running (kvCache.free seq.kvHandle) where
  wf := SlabKvCache.wf_free hslots.wf _
  sameShape := (SlabKvCache.sameShape_free _ kvCache).trans hslots.sameShape
  current_iff := by
    intro handle
    have hnodup := List.nodup_cons.mp hslots.nodup_running
    rw [SlabKvCache.isCurrentHandle_free, hslots.current_iff, hcandidate, Option.toList_none,
      List.append_nil, List.append_nil, List.map_cons, List.mem_cons]
    constructor
    · rintro ⟨heq | hmem, hne⟩
      · exact absurd heq hne
      · exact hmem
    · intro hmem
      refine ⟨Or.inr hmem, ?_⟩
      rintro rfl
      exact hnodup.1 hmem
  nodup := by
    rw [hcandidate, Option.toList_none, List.append_nil]
    exact (List.nodup_cons.mp hslots.nodup_running).2
  length_le := by
    have hle := hslots.length_le
    rw [List.length_cons] at hle
    omega
  notDone := fun index other _ hother ↦ hslots.notDone (index + 1) other (hall _) hother
  candidate_notDone := hslots.candidate_notDone

end Slots

/-! ## Every step keeps the slots in step -/

section Step

variable [Zero α] {scheduler : Scheduler α} {origin : SlabKvCache (KvTensor α)} {s s' : State α}

theorem slots_endStep (hslots : Slots scheduler origin s.pc s.running s.kvCache)
    (hcandidate : s.pc.candidate = none) :
    Slots scheduler origin (endStep s).pc (endStep s).running (endStep s).kvCache :=
  hslots.reap hcandidate rfl rfl

theorem slots_abandon {site : Site α}
    (hslots : Slots scheduler origin (.checkDone site) s.running s.kvCache) :
    Slots scheduler origin (abandon site s).pc (abandon site s).running (abandon site s).kvCache := by
  cases site with
  | removing index =>
      exact hslots.modify index Sequence.cancel_kvHandle rfl (Nat.le_refl _)
        fun other hother ↦ ⟨hother, Nat.le_of_succ_le hother⟩
  | popped req => exact hslots.goto rfl (Nat.zero_le _) fun _ _ ↦ trivial
  | allocated seq => exact hslots.release rfl (Sequence.cancel_kvHandle seq) rfl rfl fun _ _ ↦ trivial
  | prefilled seq => exact hslots.release rfl (Sequence.cancel_kvHandle seq) rfl rfl fun _ _ ↦ trivial
  | delivering index logits =>
      exact hslots.modify index Sequence.cancel_kvHandle rfl (Nat.le_refl _)
        fun other hother ↦ ⟨hother, Nat.le_of_succ_le hother⟩

theorem slots_proceed {site : Site α}
    (hslots : Slots scheduler origin (.checkDone site) s.running s.kvCache) :
    Slots scheduler origin (proceed site s).pc (proceed site s).running (proceed site s).kvCache := by
  cases site with
  | removing index =>
      exact hslots.goto rfl (Nat.le_refl _) fun other hother ↦ Nat.le_of_succ_le hother
  | popped req => exact hslots.goto rfl (Nat.le_refl _) fun _ _ ↦ trivial
  | allocated seq => exact hslots.goto rfl (Nat.le_refl _) fun _ _ ↦ trivial
  | prefilled seq => exact hslots.push rfl rfl (fun _ ↦ trivial) rfl rfl
  | delivering index logits => exact hslots.goto rfl (Nat.le_refl _) fun _ hother ↦ hother

theorem slots_endLoop {site : Site α}
    (hslots : Slots scheduler origin (.checkDone site) s.running s.kvCache)
    (hnone : site.client s.running = none) :
    Slots scheduler origin (endLoop site s).pc (endLoop site s).running (endLoop site s).kvCache := by
  cases site with
  | removing index => exact hslots.reap rfl rfl rfl
  | delivering index logits => exact hslots.reap rfl rfl rfl
  | popped req => cases hnone
  | allocated seq => cases hnone
  | prefilled seq => cases hnone

theorem slots_tryPop (hslots : Slots scheduler origin .admission s.running s.kvCache)
    (hroom : mayAdmit scheduler s = true) (late : List ClientId) :
    Slots scheduler origin (tryPop late s).pc (tryPop late s).running (tryPop late s).kvCache := by
  unfold tryPop
  split
  · exact hslots.goto rfl (Nat.le_refl _) fun _ _ ↦ trivial
  · refine { hslots with length_le := ?_ }
    unfold mayAdmit at hroom
    rw [Bool.and_eq_true, decide_eq_true_eq] at hroom
    exact hroom.1

theorem slots_admitRequest {req : GenerationRequest α}
    (hslots : Slots scheduler origin (.admitRequest req) s.running s.kvCache) :
    Slots scheduler origin (admitRequest scheduler req s).pc (admitRequest scheduler req s).running
      (admitRequest scheduler req s).kvCache := by
  have hback : Slots scheduler origin .admission s.running s.kvCache :=
    hslots.goto rfl (Nat.zero_le _) fun _ _ ↦ trivial
  unfold admitRequest
  split
  · exact hback
  cases hallocate : s.kvCache.allocate req.promptLen req.maxNewTokens with
  | mk result kvCache =>
      unfold Sequence.new
      rw [hallocate]
      cases result with
      | error err =>
          have hsame := SlabKvCache.allocate_error (congrArg Prod.fst hallocate)
          rw [hallocate] at hsame
          subst hsame
          exact hback
      | ok handle =>
          have hhandle : s.kvCache.allocate req.promptLen req.maxNewTokens =
              (.ok (Sequence.ofRequest req handle).kvHandle, kvCache) := hallocate
          exact hslots.allocate rfl hhandle rfl rfl (Nat.le_refl _) fun _ _ ↦ trivial

theorem slots_evictAt {index : ℕ} (hslots : Slots scheduler origin (.evict index) s.running s.kvCache) :
    Slots scheduler origin (evictAt scheduler index s).pc (evictAt scheduler index s).running
      (evictAt scheduler index s).kvCache := by
  unfold evictAt
  split
  · dsimp only [State.goto]
    split
    · exact hslots.reap rfl rfl rfl
    · exact hslots.reap rfl rfl rfl
  · dsimp only
    split
    · exact hslots.modify index Sequence.fail_kvHandle rfl (Nat.le_refl _)
        fun other hother ↦ ⟨hother, Nat.le_of_succ_le hother⟩
    · exact hslots.goto rfl (Nat.le_refl _) fun other hother ↦ Nat.le_of_succ_le hother

theorem slots_failBatchAt {index : ℕ} {message : String}
    (hslots : Slots scheduler origin (.failBatch index message) s.running s.kvCache)
    (hpc : s.pc = .failBatch index message) :
    Slots scheduler origin (failBatchAt index message s).pc (failBatchAt index message s).running
      (failBatchAt index message s).kvCache := by
  unfold failBatchAt
  split
  · exact slots_endStep (hpc ▸ hslots) (hpc ▸ rfl)
  · exact hslots.modify index Sequence.fail_kvHandle rfl (Nat.le_refl _)
      fun other hother ↦ ⟨hother, Nat.le_of_succ_le hother⟩

theorem slots_answerRunning (hslots : Slots scheduler origin .answerRunning s.running s.kvCache) :
    Slots scheduler origin (answerRunning s).pc (answerRunning s).running (answerRunning s).kvCache := by
  unfold answerRunning
  split
  · exact hslots.goto rfl (Nat.le_refl _) fun _ _ ↦ trivial
  · rename_i seq rest hrunning
    rw [hrunning] at hslots
    exact hslots.drain rfl fun _ ↦ trivial

end Step

section Pass

variable [Kernels α] {scheduler : Scheduler α} {origin : SlabKvCache (KvTensor α)} {s s' : State α}

theorem slots_prefill {seq : Sequence α}
    (hslots : Slots scheduler origin (.prefill seq) s.running s.kvCache) :
    Slots scheduler origin (prefill scheduler seq s).pc (prefill scheduler seq s).running
      (prefill scheduler seq s).kvCache := by
  have hconfined := scheduler.model.confined_prefill seq.promptTokens seq.kvHandle s.kvCache hslots.wf
  unfold prefill
  cases hrun : scheduler.model.prefill seq.promptTokens seq.kvHandle s.kvCache with
  | mk result kvCache =>
      rw [hrun] at hconfined
      have hafter := hslots.confined hconfined
      cases result with
      | error err => exact hafter.release rfl (Sequence.fail_kvHandle seq) rfl rfl fun _ _ ↦ trivial
      | ok _ =>
          exact hafter.swap rfl rfl (Sequence.markRunning_kvHandle seq)
            (Sequence.markRunning_isDone seq) (Nat.le_refl _) fun _ _ ↦ trivial

theorem slots_forward (hslots : Slots scheduler origin .forward s.running s.kvCache) :
    Slots scheduler origin (forward scheduler s).pc (forward scheduler s).running
      (forward scheduler s).kvCache := by
  have hconfined := scheduler.model.confined_forward (s.running.map Sequence.decodeInput) s.kvCache
    hslots.wf
  unfold forward
  cases hrun : scheduler.model.forward (s.running.map Sequence.decodeInput) s.kvCache with
  | mk result kvCache =>
      rw [hrun] at hconfined
      have hafter := hslots.confined hconfined
      cases result with
      | error err => exact hafter.goto rfl (Nat.le_refl _) fun _ _ ↦ trivial
      | ok logits => exact hafter.goto rfl (Nat.le_refl _) fun _ _ ↦ trivial

theorem slots_sampleToken {index : ℕ} {logits : List (LogitRow α)}
    (hslots : Slots scheduler origin (.sampleToken index logits) s.running s.kvCache)
    (hpc : s.pc = .sampleToken index logits) :
    Slots scheduler origin (sampleToken index logits s).pc (sampleToken index logits s).running
      (sampleToken index logits s).kvCache := by
  unfold sampleToken
  split
  · exact slots_endStep (hpc ▸ hslots) (hpc ▸ rfl)
  rename_i seq hseq
  split
  · exact hslots.modify index Sequence.fail_kvHandle rfl (Nat.le_refl _)
      fun other hother ↦ ⟨hother, Nat.le_of_succ_le hother⟩
  split
  · exact hslots.goto rfl (Nat.le_refl _) fun _ hother ↦ nomatch hother
  rename_i tokens stepped hadvance
  obtain ⟨-, -, hhandle, -⟩ := Sequence.advance_frame hadvance
  have hset : ∀ replaced : Sequence α, replaced.kvHandle = seq.kvHandle → ∀ pc' : Pc α,
      pc'.candidate = none → pc'.promised = 0 → (∀ other, pc'.Unvisited other → index < other) →
      Slots scheduler origin pc' (s.running.set index replaced) s.kvCache := by
    intro replaced hreplaced pc' hcandidate hpromised hunvisited
    apply hslots.replace (map_set_eq Sequence.kvHandle hseq hreplaced) hcandidate hpromised.le
    intro other found hother hfound
    have hlt := hunvisited other hother
    rw [List.getElem?_set_ne (Nat.ne_of_lt hlt)] at hfound
    exact ⟨hfound, Nat.le_of_lt hlt⟩
  dsimp only
  split
  · exact hset _ hhandle _ rfl rfl fun _ hother ↦ hother
  · exact hset _ ((Sequence.cancel_kvHandle stepped).trans hhandle) _ rfl rfl fun _ hother ↦ hother

theorem slots_sendItems {index : ℕ} {logits : List (LogitRow α)} {items : List StreamItem}
    (hslots : Slots scheduler origin (.sendItems index logits items) s.running s.kvCache) :
    Slots scheduler origin (sendItems index logits items s).pc (sendItems index logits items s).running
      (sendItems index logits items s).kvCache := by
  unfold sendItems
  split
  · exact hslots.goto rfl (Nat.le_refl _) fun _ hother ↦ hother
  · exact hslots.goto rfl (Nat.le_refl _) fun _ hother ↦ hother

/-- **Every step of the scheduler keeps the slots in step.** -/
theorem slots_schedStep {late : List ClientId} (hslots : Slots scheduler origin s.pc s.running s.kvCache)
    (hstep : SchedStep scheduler late s s') :
    Slots scheduler origin s'.pc s'.running s'.kvCache := by
  cases hstep with
  | stop hpc _ =>
      rw [hpc] at hslots
      exact hslots.goto rfl (Nat.le_refl _) fun _ _ ↦ trivial
  | enter hpc =>
      rw [hpc] at hslots
      exact hslots.goto rfl (Nat.le_refl _) fun _ _ ↦ trivial
  | endLoop hpc hclient =>
      rw [hpc] at hslots
      exact slots_endLoop hslots hclient
  | responseDone hpc _ _ =>
      rw [hpc] at hslots
      exact slots_abandon hslots
  | responseWanted hpc _ _ =>
      rw [hpc] at hslots
      exact hslots.goto rfl (Nat.le_refl _) fun _ hother ↦ hother
  | @closed site client hpc _ =>
      rw [hpc] at hslots
      exact slots_abandon (s := s.recordCancelled [client])
        (hslots.goto rfl (Nat.le_refl _) fun _ hother ↦ hother)
  | stillOpen hpc _ =>
      rw [hpc] at hslots
      exact slots_proceed (hslots.goto rfl (Nat.le_refl _) fun _ hother ↦ hother)
  | full hpc =>
      rw [hpc] at hslots
      exact hslots.goto rfl (Nat.le_refl _) fun _ _ ↦ trivial
  | tryPop hpc hroom =>
      rw [hpc] at hslots
      exact slots_tryPop hslots hroom late
  | admitRequest hpc =>
      rw [hpc] at hslots
      exact slots_admitRequest hslots
  | prefill hpc =>
      rw [hpc] at hslots
      exact slots_prefill hslots
  | evict hpc =>
      rw [hpc] at hslots
      exact slots_evictAt hslots
  | park hpc _ =>
      rw [hpc] at hslots
      exact hslots.goto rfl (Nat.le_refl _) fun _ _ ↦ trivial
  | resume hpc =>
      rw [hpc] at hslots
      exact hslots.goto rfl (Nat.le_refl _) fun _ _ ↦ trivial
  | wake hpc _ =>
      rw [hpc] at hslots
      exact hslots.goto rfl (Nat.le_refl _) fun _ _ ↦ trivial
  | forward hpc =>
      rw [hpc] at hslots
      exact slots_forward hslots
  | failBatch hpc => exact slots_failBatchAt (hpc ▸ hslots) hpc
  | sampleToken hpc => exact slots_sampleToken (hpc ▸ hslots) hpc
  | sendItems hpc =>
      rw [hpc] at hslots
      exact slots_sendItems hslots
  | closeQueue hpc =>
      rw [hpc] at hslots
      exact hslots.goto rfl (Nat.le_refl _) fun _ _ ↦ trivial
  | @answerQueued drained hpc =>
      rw [hpc] at hslots
      cases drained with
      | nil => exact hslots.goto rfl (Nat.le_refl _) fun _ _ ↦ trivial
      | cons req rest => exact hslots.goto rfl (Nat.le_refl _) fun _ _ ↦ trivial
  | answerRunning hpc =>
      rw [hpc] at hslots
      exact slots_answerRunning hslots

/-- **Nobody else touches the slots.** -/
theorem slots_step {action : Action α} (hslots : Slots scheduler origin s.pc s.running s.kvCache)
    (hstep : step scheduler action s = some s') :
    Slots scheduler origin s'.pc s'.running s'.kvCache := by
  cases step_cases hstep with
  | sched hsched => exact slots_schedStep hslots hsched
  | schedShutdown hpc _ =>
      rcases hpc with hpc | hpc
      · rw [hpc] at hslots
        exact hslots.goto rfl (Nat.le_refl _) fun _ _ ↦ trivial
      · rw [hpc] at hslots
        exact hslots.goto rfl (Nat.le_refl _) fun _ _ ↦ trivial
  | refuse _ _ => exact hslots
  | accept _ _ _ => exact hslots
  | notify _ => exact hslots
  | client _ => exact hslots
  | shutdown => exact hslots

/-! ## Where the program counter can stand -/

omit [Kernels α] in
/-- What the program counter says about `running` and the queue. -/
def Placed : Pc α → List (Sequence α) → RequestQueue α → Prop
  | .checkClosed site client, running, _ => site.client running = some client
  | .sampleToken index _, running, _ => index < running.length
  | .sendItems index _ _, running, _ => index < running.length
  | .forward, running, _ => running ≠ []
  | .answerQueued _, _, queue => queue.closed = true ∧ queue.requests = []
  | .answerRunning, _, queue => queue.closed = true ∧ queue.requests = []
  | .returned, running, queue => (queue.closed = true ∧ queue.requests = []) ∧ running = []
  | _, _, _ => True

omit [Kernels α] in
theorem Placed.submit {pc : Pc α} {running : List (Sequence α)} {queue queue' : RequestQueue α}
    (hplaced : Placed pc running queue)
    (hclosed : queue.closed = true ∧ queue.requests = [] →
      queue'.closed = true ∧ queue'.requests = []) : Placed pc running queue' := by
  cases pc with
  | answerQueued _ => exact hclosed hplaced
  | answerRunning => exact hclosed hplaced
  | returned => exact ⟨hclosed hplaced.1, hplaced.2⟩
  | checkClosed _ _ | sampleToken _ _ | sendItems _ _ _ | forward => exact hplaced
  | loopHead | checkDone _ | admission | admitRequest _ | prefill _ | evict _ | idleCheck | parked
  | failBatch _ _ | closeQueue | panicked => trivial

omit [Kernels α] in
theorem placed_abandon (site : Site α) (s : State α) :
    Placed (abandon site s).pc (abandon site s).running (abandon site s).queue := by
  cases site <;> trivial

omit [Kernels α] in
theorem placed_proceed {site : Site α} {client : ClientId} (hclient : site.client s.running = some client) :
    Placed (proceed site s).pc (proceed site s).running (proceed site s).queue := by
  cases site with
  | delivering index logits =>
      obtain ⟨seq, hseq, -⟩ := Option.map_eq_some_iff.mp hclient
      exact (List.getElem?_eq_some_iff.mp hseq).1
  | removing _ | popped _ | allocated _ | prefilled _ => trivial

theorem placed_sampleToken {index : ℕ} {logits : List (LogitRow α)} :
    Placed (sampleToken index logits s).pc (sampleToken index logits s).running
      (sampleToken index logits s).queue := by
  unfold sampleToken
  split
  · trivial
  rename_i seq hseq
  split
  · trivial
  split
  · trivial
  dsimp only
  split
  · change index < (s.running.set index _).length
    rw [List.length_set]
    exact (List.getElem?_eq_some_iff.mp hseq).1
  · trivial

theorem placed_schedStep {late : List ClientId} (hplaced : Placed s.pc s.running s.queue)
    (hstep : SchedStep scheduler late s s') : Placed s'.pc s'.running s'.queue := by
  cases hstep with
  | stop _ _ => trivial
  | enter _ => trivial
  | @endLoop site _ _ => cases site <;> trivial
  | responseDone _ _ _ => exact placed_abandon _ _
  | responseWanted _ hclient _ => exact hclient
  | closed _ _ => exact placed_abandon _ _
  | stillOpen hpc _ =>
      rw [hpc] at hplaced
      exact placed_proceed hplaced
  | full _ => trivial
  | tryPop _ _ =>
      unfold tryPop
      split <;> trivial
  | admitRequest _ =>
      unfold admitRequest
      split
      · trivial
      · split <;> trivial
  | prefill _ =>
      unfold prefill
      split <;> trivial
  | evict _ =>
      unfold evictAt
      split
      · dsimp only [State.goto]
        split
        · trivial
        · rename_i hne
          rwa [List.isEmpty_iff] at hne
      · trivial
  | park _ _ => trivial
  | resume _ => trivial
  | wake _ _ => trivial
  | forward _ =>
      unfold forward
      split <;> trivial
  | failBatch _ =>
      unfold failBatchAt
      split <;> trivial
  | sampleToken _ => exact placed_sampleToken
  | sendItems hpc =>
      rw [hpc] at hplaced
      unfold sendItems
      split
      · exact hplaced
      · trivial
  | closeQueue _ => exact ⟨rfl, rfl⟩
  | @answerQueued drained hpc =>
      rw [hpc] at hplaced
      cases drained with
      | nil => exact hplaced
      | cons req rest => exact hplaced
  | answerRunning hpc =>
      rw [hpc] at hplaced
      unfold answerRunning
      split
      · rename_i hrunning
        exact ⟨hplaced, hrunning⟩
      · exact hplaced

theorem placed_step {action : Action α} (hplaced : Placed s.pc s.running s.queue)
    (hstep : step scheduler action s = some s') : Placed s'.pc s'.running s'.queue := by
  cases step_cases hstep with
  | sched hsched => exact placed_schedStep hplaced hsched
  | schedShutdown _ _ => trivial
  | @refuse req late _ _ =>
      apply hplaced.submit
      rintro ⟨hclosed, hempty⟩
      refine ⟨hclosed, ?_⟩
      change s.queue.requests.filter _ = []
      rw [hempty]
      rfl
  | accept _ hopen _ =>
      apply hplaced.submit
      rintro ⟨hclosed, -⟩
      rw [hopen] at hclosed
      cases hclosed
  | notify _ => exact hplaced
  | client _ => exact hplaced
  | shutdown => exact hplaced

/-! ## Slot accounting over whole runs -/

variable {allowed : State α → Action α → Prop} {maxDepth : ℕ} {capacity : ClientId → ℕ}

theorem slots_reachable {maxSeqs maxSeqLen numLayers nHeads headDim : ℕ}
    (hreach : Reaches scheduler allowed
      (init (.new maxSeqs maxSeqLen numLayers nHeads headDim) maxDepth capacity) s) :
    Slots scheduler (.new maxSeqs maxSeqLen numLayers nHeads headDim) s.pc s.running s.kvCache :=
  hreach.invariant (fun _ _ _ _ hslots _ hnext ↦ slots_step hslots hnext) (Slots.init _ _ _ _ _)

theorem placed_reachable {origin : SlabKvCache (KvTensor α)}
    (hreach : Reaches scheduler allowed (init origin maxDepth capacity) s) :
    Placed s.pc s.running s.queue := by
  have hinit : Placed (init origin maxDepth capacity).pc (init origin maxDepth capacity).running
      (init origin maxDepth capacity).queue := trivial
  exact hreach.invariant (fun _ _ _ _ hplaced _ hnext ↦ placed_step hplaced hnext) hinit

omit [Kernels α] in
/-- At the boundaries of the phases nothing is being admitted and nothing is being visited. -/
theorem Pc.AtBoundary.settled {pc : Pc α} (hboundary : pc.AtBoundary) :
    pc.candidate = none ∧ ∀ index, pc.Unvisited index := by
  cases pc with
  | loopHead | idleCheck | parked | forward => exact ⟨rfl, fun _ ↦ trivial⟩
  | evict index =>
      cases index with
      | zero => exact ⟨rfl, fun _ ↦ Nat.zero_le _⟩
      | succ index => cases hboundary
  | _ => cases hboundary

/-- **KV slot accounting.** In every run, at the head of the loop, at the end of admission, while
idle and before every model pass, the allocated handles are exactly those of `running`, in distinct
slots; no sequence of `running` is done, and there are no more than the configuration and the cache
allow. When `run` has returned, no slot is allocated, `running` is empty, and the queue is closed
and empty. -/
theorem slots_follow_running (scheduler : Scheduler α)
    (maxSeqs maxSeqLen numLayers nHeads headDim maxDepth : ℕ) (capacity : ClientId → ℕ) :
    ∀ s, Reaches scheduler Anything
        (init (.new maxSeqs maxSeqLen numLayers nHeads headDim) maxDepth capacity) s →
      (s.pc.AtBoundary →
        (∀ slot handle, s.kvCache.allocated.lookup slot = some handle ↔
          handle ∈ s.running.map Sequence.kvHandle ∧ handle.slot = slot) ∧
        (s.running.map fun seq ↦ seq.kvHandle.slot).Nodup ∧
        (∀ seq ∈ s.running, seq.isDone = false) ∧
        s.running.length ≤ min scheduler.config.maxRunningSeqs s.kvCache.maxSequences) ∧
      (s.pc = .returned →
        s.kvCache.allocatedSlots = 0 ∧ s.running = [] ∧ s.queue.closed = true ∧
          s.queue.requests = []) := by
  intro s hreach
  have hslots := slots_reachable hreach
  have hallocated : s.pc.candidate = none → ∀ slot handle,
      s.kvCache.allocated.lookup slot = some handle ↔
        handle ∈ s.running.map Sequence.kvHandle ∧ handle.slot = slot := by
    intro hcandidate slot handle
    have hiff := hslots.current_iff handle
    rw [hcandidate, Option.toList_none, List.append_nil] at hiff
    rw [← hiff]
    constructor
    · intro hlookup
      obtain ⟨rfl, -⟩ := hslots.wf.allocated_slot slot handle hlookup
      exact ⟨hlookup, rfl⟩
    · rintro ⟨hlookup, rfl⟩
      exact hlookup
  constructor
  · intro hboundary
    obtain ⟨hcandidate, hunvisited⟩ := hboundary.settled
    refine ⟨hallocated hcandidate, ?_, hslots.all_notDone hunvisited, ?_⟩
    · have hnodup := nodup_slots hslots.nodup_running hslots.current_handles
      rwa [List.map_map] at hnodup
    · apply Nat.le_min.mpr
      exact ⟨Nat.le_of_add_right_le hslots.length_le,
        length_le_maxSeqs hslots.wf hslots.nodup_running hslots.current_handles⟩
  · intro hreturned
    have hplaced := placed_reachable hreach
    rw [hreturned] at hplaced
    obtain ⟨⟨hclosed, hempty⟩, hrunning⟩ := hplaced
    refine ⟨?_, hrunning, hclosed, hempty⟩
    have hnone : ∀ slot, slot ∉ s.kvCache.allocated := by
      intro slot hslot
      obtain ⟨handle, hhandle⟩ := Finmap.mem_iff.mp hslot
      have hmem := ((hallocated (hreturned ▸ rfl) slot handle).mp hhandle).1
      rw [hrunning] at hmem
      cases hmem
    apply Finset.card_eq_zero.mpr
    exact Finset.eq_empty_of_forall_notMem fun slot hslot ↦ hnone slot (Finmap.mem_keys.mp hslot)

end Pass

instance {α : Type} (pc : Pc α) : Decidable pc.AtBoundary := by
  unfold Pc.AtBoundary
  split <;> infer_instance

/-- A decode pass is next. -/
def Pc.isForward {α : Type} : Pc α → Bool
  | forward => true
  | _ => false

theorem Pc.eq_forward {α : Type} {pc : Pc α} (hforward : pc.isForward = true) : pc = .forward := by
  cases pc with
  | forward => rfl
  | _ => cases hforward

/-- Two sequences at a time, over the scripted backend. -/
def tinyScheduler : Scheduler ℚ where
  config := ⟨2, 4, 8⟩
  model := .scripted tinyScripted

def tinyStart : State ℚ := init (.new 2 8 12 12 64) 4 fun _ ↦ 5

/-- Submit one request and run to its first model pass. -/
def tinyActions : List (Action ℚ) :=
  .submit ⟨"a", [1], tinyConfig, 0, 0, 0⟩ [] :: List.replicate 14 (.sched [])

/-- Two sequences at a time, over the GPT-2 backend. -/
def tinyGpt2Scheduler : Scheduler ℚ where
  config := ⟨2, 4, 8⟩
  model := .gpt2 tinyGpt2

def tinyGpt2Start : State ℚ := init (.new 2 8 1 1 1) 4 fun _ ↦ 5

/-- Sampling of at most so many tokens. -/
def shareConfig (seed : UInt64) (maxNewTokens : ℕ) : SamplerConfig ℚ :=
  { tinyConfig with temperature := 1, seed := seed, maxNewTokens := maxNewTokens }

/-- Two requests share the first passes, and a third one comes in while they do. -/
def shareActions : List (Action ℚ) :=
  [.submit ⟨"a", [1], shareConfig 8 2, 0, 0, 0⟩ [],
    .submit ⟨"b", [0, 1], shareConfig 7 4, 1, 0, 0⟩ []] ++ List.replicate 40 (.sched []) ++
      [.submit ⟨"c", [1, 1], shareConfig 9 3, 2, 0, 0⟩ []]

/-- The first request has left, and the third one has got its slot. -/
def tinyReused : State ℚ :=
  (Transition.run (step tinyGpt2Scheduler) Anything
    (shareActions ++ List.replicate 36 (.sched [])) tinyGpt2Start).getD tinyGpt2Start

theorem reaches_tinyReused : Reaches tinyGpt2Scheduler Anything tinyGpt2Start tinyReused :=
  Transition.reaches_getD_run (by decide +kernel) tinyGpt2Start

theorem slots_follow_running_tinyReused :
    tinyReused.pc.AtBoundary ∧
      (tinyReused.running.map fun seq ↦ (seq.client, seq.kvHandle)) =
        [(1, ⟨1, 6, 1⟩), (2, ⟨0, 5, 2⟩)] ∧
      (∀ slot handle, tinyReused.kvCache.allocated.lookup slot = some handle ↔
        handle ∈ tinyReused.running.map Sequence.kvHandle ∧ handle.slot = slot) ∧
      (tinyReused.running.map fun seq ↦ seq.kvHandle.slot).Nodup ∧
      (∀ seq ∈ tinyReused.running, seq.isDone = false) ∧
      tinyReused.running.length ≤ min 2 tinyReused.kvCache.maxSequences :=
  ⟨by decide +kernel, by decide +kernel, (slots_follow_running tinyGpt2Scheduler 2 8 1 1 1 4
    (fun _ ↦ 5) tinyReused reaches_tinyReused).1 (by decide +kernel)⟩

end Scheduler

end HotBatch
