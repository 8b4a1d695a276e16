import HotBatch.Core.PrivateRun
import HotBatch.Scheduler.Slots

/-!
# Sequences follow their private runs

Whatever joins or leaves the batch, every sequence of the scheduler is some number of turns into the
private run of its request, possibly cancelled or failed there, and its slot holds what the private
run has cached. While a decode step is being delivered, the slots of the sequences that have not
been visited are one turn ahead, and their logits wait in their row of the batch.
-/

namespace HotBatch

namespace Sequence

variable {α : Type}

/-- `seq` is `base`, or `base` cancelled or failed. -/
def Interrupts (base seq : Sequence α) : Prop := seq = base ∨ seq = base.cancel ∨ seq = base.fail

theorem cancel_of_done {seq : Sequence α} (hdone : seq.isDone = true) : seq.cancel = seq :=
  if_pos hdone

theorem fail_of_done {seq : Sequence α} (hdone : seq.isDone = true) : seq.fail = seq := if_pos hdone

namespace Interrupts

variable {base seq : Sequence α}

theorem refl (base : Sequence α) : base.Interrupts base := Or.inl rfl

theorem cancel (hinterrupts : base.Interrupts seq) : base.Interrupts seq.cancel := by
  rcases hinterrupts with rfl | rfl | rfl
  · exact Or.inr (Or.inl rfl)
  · rw [cancel_of_done base.cancel_isDone]
    exact Or.inr (Or.inl rfl)
  · rw [cancel_of_done base.fail_isDone]
    exact Or.inr (Or.inr rfl)

theorem fail (hinterrupts : base.Interrupts seq) : base.Interrupts seq.fail := by
  rcases hinterrupts with rfl | rfl | rfl
  · exact Or.inr (Or.inr rfl)
  · rw [fail_of_done base.cancel_isDone]
    exact Or.inr (Or.inl rfl)
  · rw [fail_of_done base.fail_isDone]
    exact Or.inr (Or.inr rfl)

/-- An unfinished sequence has not been interrupted. -/
theorem eq_of_not_done (hinterrupts : base.Interrupts seq) (hdone : seq.isDone = false) :
    seq = base := by
  rcases hinterrupts with rfl | rfl | rfl
  · rfl
  · rw [base.cancel_isDone] at hdone
    cases hdone
  · rw [base.fail_isDone] at hdone
    cases hdone

/-- A finished sequence was not interrupted either. -/
theorem eq_of_finished (hinterrupts : base.Interrupts seq) (hstate : seq.state = .finished) :
    seq = base := by
  cases hdone : base.isDone with
  | true =>
      rcases hinterrupts with rfl | rfl | rfl
      · rfl
      · exact cancel_of_done hdone
      · exact fail_of_done hdone
  | false =>
      rcases hinterrupts with rfl | rfl | rfl
      · rfl
      · unfold Sequence.cancel at hstate
        rw [if_neg (by simp [hdone])] at hstate
        cases hstate
      · unfold Sequence.fail at hstate
        rw [if_neg (by simp [hdone])] at hstate
        cases hstate

theorem generatedTokens_eq (hinterrupts : base.Interrupts seq) :
    seq.generatedTokens = base.generatedTokens := by
  rcases hinterrupts with rfl | rfl | rfl
  · rfl
  · exact base.cancel_generatedTokens
  · exact base.fail_generatedTokens

theorem client_eq (hinterrupts : base.Interrupts seq) : seq.client = base.client := by
  rcases hinterrupts with rfl | rfl | rfl
  · rfl
  · exact base.cancel_client
  · exact base.fail_client

end Interrupts

end Sequence

namespace Scheduler

variable {α : Type}

/-- How the slot of a running sequence relates to its tokens. -/
inductive Progress (α : Type) where
  /-- The slot holds what has been cached up to the last token. -/
  | ready
  /-- The decode pass has been through the slot; its logits have not been sampled. -/
  | ahead (logits : List (LogitRow α))
  /-- A decode pass has failed somewhere. -/
  | spent
  /-- Only done sequences are here. -/
  | gone

def Site.progress : Site α → ℕ → Progress α
  | delivering index logits, other => if index ≤ other then .ahead logits else .ready
  | removing _, _ | popped _, _ | allocated _, _ | prefilled _, _ => .ready

def Site.fresh : Site α → Option (Sequence α)
  | allocated seq => some seq
  | removing _ | popped _ | prefilled _ | delivering _ _ => none

def Site.primed : Site α → Option (Sequence α)
  | prefilled seq => some seq
  | removing _ | popped _ | allocated _ | delivering _ _ => none

namespace Pc

def progress : Pc α → ℕ → Progress α
  | checkDone site, other | checkClosed site _, other => site.progress other
  | sampleToken index logits, other => if index ≤ other then .ahead logits else .ready
  | sendItems index logits _, other => if index < other then .ahead logits else .ready
  | failBatch index _, other => if index ≤ other then .spent else .gone
  | _, _ => .ready

/-- The candidate before its prefill. -/
def fresh : Pc α → Option (Sequence α)
  | checkDone site | checkClosed site _ => site.fresh
  | prefill seq => some seq
  | _ => none

/-- The candidate after its prefill. -/
def primed : Pc α → Option (Sequence α)
  | checkDone site | checkClosed site _ => site.primed
  | _ => none

end Pc

/-- What validation lets through. -/
structure Admitted (scheduler : Scheduler α) (maxSeqLen : ℕ) (req : GenerationRequest α) : Prop where
  admissible : req.Admissible
  maxNew_le : req.maxNewTokens ≤ scheduler.config.maxNewTokens
  total_le_config : req.promptLen + req.maxNewTokens ≤ scheduler.config.maxSeqLen
  total_le_cache : req.promptLen + req.maxNewTokens ≤ maxSeqLen
  total_le_positions : req.promptLen + req.maxNewTokens ≤ scheduler.model.maxPositions

/-- `validate_request` accepts exactly the requests that fit. -/
theorem validateRequest_eq_ok {scheduler : Scheduler α} {kvCache : SlabKvCache (KvTensor α)}
    {req : GenerationRequest α} :
    validateRequest scheduler kvCache req = .ok () ↔ Admitted scheduler kvCache.maxSeqLen req := by
  unfold validateRequest
  constructor
  · intro hok
    split_ifs at hok with hprompt hnew hlimit
    dsimp only at hok
    split at hok
    · cases hok
    · rename_i total htotal
      obtain ⟨hlt, rfl⟩ := Usize.checkedAdd_eq_some.mp htotal
      split_ifs at hok with hlen
      rw [Nat.not_lt, Nat.le_min, Nat.le_min] at hlen
      refine ⟨⟨by simpa using hprompt, Nat.pos_of_ne_zero hnew, hlt⟩, Nat.not_lt.mp hlimit,
        hlen.1.1, hlen.1.2, hlen.2⟩
  · rintro ⟨⟨hprompt, hnew, htotal⟩, hlimit, hconfig, hcache, hpositions⟩
    rw [if_neg (by simpa using hprompt), if_neg (Nat.ne_of_gt hnew), if_neg (Nat.not_lt.mpr hlimit),
      Usize.checkedAdd_eq_some.mpr ⟨htotal, rfl⟩]
    dsimp only
    rw [if_neg]
    rw [Nat.not_lt, Nat.le_min, Nat.le_min]
    exact ⟨⟨hconfig, hcache⟩, hpositions⟩

variable [Kernels α]

/-- The tensors of a slot, as the progress of its sequence says. -/
def Cached (model : SmallTransformer α) (index : ℕ) (store : KvStore α) (state : PrivateState α) :
    Progress α → Prop
  | .ready => store = state.store
  | .ahead logits =>
      logits[index]? = some (model.decodeRow state.store state.seq.decodeInput).1 ∧
        store = (model.decodeRow state.store state.seq.decodeInput).2 ∧
        model.AcceptsInput state.seq.decodeInput
  | .spent => True
  | .gone => False

/-- So many turns into the private run of the request, and possibly interrupted there. -/
structure Follows (scheduler : Scheduler α) (maxSeqLen : ℕ) (req : GenerationRequest α) (turns : ℕ)
    (seq : Sequence α) : Prop where
  admitted : Admitted scheduler maxSeqLen req
  capacity_eq : seq.kvHandle.capacityTokens = req.promptLen + req.maxNewTokens
  accepted : PrivateState.Accepted scheduler.model req seq.kvHandle turns
  interrupts : (PrivateState.after scheduler.model req seq.kvHandle turns).seq.Interrupts seq

namespace Follows

variable {scheduler : Scheduler α} {maxSeqLen turns : ℕ} {req : GenerationRequest α}
  {seq : Sequence α}

theorem cancel (hfollows : Follows scheduler maxSeqLen req turns seq) :
    Follows scheduler maxSeqLen req turns seq.cancel where
  admitted := hfollows.admitted
  capacity_eq := by
    rw [Sequence.cancel_kvHandle]
    exact hfollows.capacity_eq
  accepted := by
    rw [Sequence.cancel_kvHandle]
    exact hfollows.accepted
  interrupts := by
    rw [Sequence.cancel_kvHandle]
    exact hfollows.interrupts.cancel

theorem fail (hfollows : Follows scheduler maxSeqLen req turns seq) :
    Follows scheduler maxSeqLen req turns seq.fail where
  admitted := hfollows.admitted
  capacity_eq := by
    rw [Sequence.fail_kvHandle]
    exact hfollows.capacity_eq
  accepted := by
    rw [Sequence.fail_kvHandle]
    exact hfollows.accepted
  interrupts := by
    rw [Sequence.fail_kvHandle]
    exact hfollows.interrupts.fail

theorem eq_after (hfollows : Follows scheduler maxSeqLen req turns seq) (hdone : seq.isDone = false) :
    seq = (PrivateState.after scheduler.model req seq.kvHandle turns).seq :=
  hfollows.interrupts.eq_of_not_done hdone

theorem serves (hfollows : Follows scheduler maxSeqLen req turns seq) (hdone : seq.isDone = false) :
    Sequence.Serves req seq := by
  rw [hfollows.eq_after hdone]
  exact PrivateState.serves_after turns

theorem client_eq (hfollows : Follows scheduler maxSeqLen req turns seq) : seq.client = req.client :=
  hfollows.interrupts.client_eq.trans (PrivateState.serves_after turns).client_eq

/-- A turn of the sequence is a turn of the private run. -/
theorem advance (hfollows : Follows scheduler maxSeqLen req turns seq) (hdone : seq.isDone = false)
    {store : KvStore α} {index : ℕ} {logits : List (LogitRow α)}
    (hcached : Cached scheduler.model index store
      (PrivateState.after scheduler.model req seq.kvHandle turns) (.ahead logits))
    {row : LogitRow α} (hrow : logits[index]? = some row) {tokens : List Token}
    {stepped : Sequence α} (hadvance : seq.advance row = some (tokens, stepped)) :
    Follows scheduler maxSeqLen req (turns + 1) stepped ∧
      Cached scheduler.model index store
        (PrivateState.after scheduler.model req stepped.kvHandle (turns + 1)) .ready := by
  obtain ⟨hlogits, hstore, haccepts⟩ := hcached
  obtain ⟨-, -, hhandle, -⟩ := Sequence.advance_frame hadvance
  have hseq := hfollows.eq_after hdone
  rw [hrow, Option.some_inj] at hlogits
  have hbefore : (PrivateState.after scheduler.model req seq.kvHandle turns).seq.isDone = false :=
    hseq ▸ hdone
  obtain ⟨tokens', stepped', hadvance', hafter⟩ := PrivateState.after_succ hbefore
  rw [← hseq] at hadvance' hafter
  rw [← hseq] at hlogits hstore haccepts
  rw [← hlogits, hadvance, Option.some_inj] at hadvance'
  obtain ⟨-, rfl⟩ := Prod.mk.inj hadvance'
  constructor
  · refine ⟨hfollows.admitted, hhandle ▸ hfollows.capacity_eq, ?_, ?_⟩
    · rw [hhandle]
      refine ⟨hfollows.accepted.prompt, ?_⟩
      intro turn hturn hturnDone
      rcases Nat.lt_succ_iff_lt_or_eq.mp hturn with hlt | rfl
      · exact hfollows.accepted.rows turn hlt hturnDone
      · rw [← hseq]
        exact haccepts
    · rw [hhandle, hafter]
      exact .refl _
  · rw [hhandle, hafter]
    exact hstore

end Follows

/-- A sequence of `running` and its slot are where the private run of an accepted request says. -/
def OnTrack (scheduler : Scheduler α) (maxSeqLen : ℕ) (accepted : List (GenerationRequest α))
    (progress : Progress α) (index : ℕ) (store : KvStore α) (seq : Sequence α) : Prop :=
  ∃ req ∈ accepted, ∃ turns, Follows scheduler maxSeqLen req turns seq ∧
    (seq.isDone = false → Cached scheduler.model index store
      (PrivateState.after scheduler.model req seq.kvHandle turns) progress)

/-- A sequence that has just been created: nothing is stored for it. -/
def Untouched (scheduler : Scheduler α) (maxSeqLen : ℕ) (accepted : List (GenerationRequest α))
    (store : KvStore α) (seq : Sequence α) : Prop :=
  ∃ req ∈ accepted, Admitted scheduler maxSeqLen req ∧ seq = .ofRequest req seq.kvHandle ∧
    seq.kvHandle.capacityTokens = req.promptLen + req.maxNewTokens ∧ ∀ layer, store layer = none

/-- What is known of a sequence after the scheduler has dropped it. -/
def Traces (scheduler : Scheduler α) (maxSeqLen : ℕ) (accepted : List (GenerationRequest α))
    (seq : Sequence α) : Prop :=
  ∃ req ∈ accepted, Admitted scheduler maxSeqLen req ∧
    ((Sequence.ofRequest req seq.kvHandle).Interrupts seq ∨
      ∃ turns, Follows scheduler maxSeqLen req turns seq)

section Entries

variable {scheduler : Scheduler α} {maxSeqLen : ℕ} {accepted more : List (GenerationRequest α)}
  {progress progress' : Progress α} {index index' : ℕ} {store store' : KvStore α} {seq : Sequence α}

theorem OnTrack.traces (htrack : OnTrack scheduler maxSeqLen accepted progress index store seq) :
    Traces scheduler maxSeqLen accepted seq := by
  obtain ⟨req, hreq, turns, hfollows, -⟩ := htrack
  exact ⟨req, hreq, hfollows.admitted, Or.inr ⟨turns, hfollows⟩⟩

theorem OnTrack.traces_cancel
    (htrack : OnTrack scheduler maxSeqLen accepted progress index store seq) :
    Traces scheduler maxSeqLen accepted seq.cancel := by
  obtain ⟨req, hreq, turns, hfollows, -⟩ := htrack
  exact ⟨req, hreq, hfollows.admitted, Or.inr ⟨turns, hfollows.cancel⟩⟩

theorem OnTrack.cancel (htrack : OnTrack scheduler maxSeqLen accepted progress index store seq) :
    OnTrack scheduler maxSeqLen accepted progress' index' store' seq.cancel := by
  obtain ⟨req, hreq, turns, hfollows, -⟩ := htrack
  refine ⟨req, hreq, turns, hfollows.cancel, fun hnot ↦ ?_⟩
  rw [Sequence.cancel_isDone] at hnot
  cases hnot

theorem OnTrack.fail (htrack : OnTrack scheduler maxSeqLen accepted progress index store seq) :
    OnTrack scheduler maxSeqLen accepted progress' index' store' seq.fail := by
  obtain ⟨req, hreq, turns, hfollows, -⟩ := htrack
  refine ⟨req, hreq, turns, hfollows.fail, fun hnot ↦ ?_⟩
  rw [Sequence.fail_isDone] at hnot
  cases hnot

/-- A sequence that samples its row is ready for the next pass. -/
theorem OnTrack.advance {logits : List (LogitRow α)} {row : LogitRow α} {tokens : List Token}
    {stepped : Sequence α}
    (htrack : OnTrack scheduler maxSeqLen accepted (.ahead logits) index store seq)
    (hdone : seq.isDone = false) (hrow : logits[index]? = some row)
    (hadvance : seq.advance row = some (tokens, stepped)) :
    OnTrack scheduler maxSeqLen accepted .ready index store stepped := by
  obtain ⟨req, hreq, turns, hfollows, hcached⟩ := htrack
  obtain ⟨hstepped, hready⟩ := hfollows.advance hdone (hcached hdone) hrow hadvance
  exact ⟨req, hreq, turns + 1, hstepped, fun _ ↦ hready⟩

theorem OnTrack.exists_advance
    (htrack : OnTrack scheduler maxSeqLen accepted progress index store seq)
    (hdone : seq.isDone = false) (row : LogitRow α) :
    ∃ tokens stepped, seq.advance row = some (tokens, stepped) := by
  obtain ⟨req, -, turns, hfollows, -⟩ := htrack
  exact (hfollows.serves hdone).exists_advance row

/-- Only a pass that is under way ties a sequence to its place in the batch. -/
theorem OnTrack.move (htrack : OnTrack scheduler maxSeqLen accepted .ready index store seq)
    (index' : ℕ) : OnTrack scheduler maxSeqLen accepted .ready index' store seq := htrack

theorem OnTrack.mono (htrack : OnTrack scheduler maxSeqLen accepted progress index store seq)
    (hsubset : accepted ⊆ more) : OnTrack scheduler maxSeqLen more progress index store seq := by
  obtain ⟨req, hreq, hrest⟩ := htrack
  exact ⟨req, hsubset hreq, hrest⟩

omit [Kernels α] in
theorem Untouched.mono (huntouched : Untouched scheduler maxSeqLen accepted store seq)
    (hsubset : accepted ⊆ more) : Untouched scheduler maxSeqLen more store seq := by
  obtain ⟨req, hreq, hrest⟩ := huntouched
  exact ⟨req, hsubset hreq, hrest⟩

theorem Traces.mono (htraces : Traces scheduler maxSeqLen accepted seq) (hsubset : accepted ⊆ more) :
    Traces scheduler maxSeqLen more seq := by
  obtain ⟨req, hreq, hrest⟩ := htraces
  exact ⟨req, hsubset hreq, hrest⟩

/-- A candidate that is given up before its prefill. -/
theorem Untouched.traces_of_interrupts (huntouched : Untouched scheduler maxSeqLen accepted store seq)
    {dropped : Sequence α} (hinterrupts : seq.Interrupts dropped)
    (hhandle : dropped.kvHandle = seq.kvHandle) : Traces scheduler maxSeqLen accepted dropped := by
  obtain ⟨req, hreq, hadmitted, hseq, -, -⟩ := huntouched
  refine ⟨req, hreq, hadmitted, Or.inl ?_⟩
  rw [hhandle, ← hseq]
  exact hinterrupts

end Entries

/-- Everything the scheduler holds comes from an accepted request and is on its track. -/
structure Following (scheduler : Scheduler α) (maxSeqLen : ℕ) (s : State α) : Prop where
  queued : ∀ req ∈ s.queue.requests, req ∈ s.history.accepted
  pending : ∀ req ∈ s.pc.pending, req ∈ s.history.accepted
  fresh : ∀ seq ∈ s.pc.fresh,
    Untouched scheduler maxSeqLen s.history.accepted (s.kvCache.stored seq.kvHandle) seq
  primed : ∀ seq ∈ s.pc.primed,
    OnTrack scheduler maxSeqLen s.history.accepted .ready 0 (s.kvCache.stored seq.kvHandle) seq
  running : ∀ index seq, s.running[index]? = some seq →
    OnTrack scheduler maxSeqLen s.history.accepted (s.pc.progress index) index
      (s.kvCache.stored seq.kvHandle) seq
  dropped : ∀ seq, Resolved.sequence seq ∈ s.history.resolved →
    Traces scheduler maxSeqLen s.history.accepted seq

namespace Following

variable {scheduler : Scheduler α} {origin : SlabKvCache (KvTensor α)} {maxSeqLen : ℕ}
  {s : State α} {pc : Pc α}

theorem init (kvCache : SlabKvCache (KvTensor α)) (maxDepth : ℕ) (capacity : ClientId → ℕ) :
    Following scheduler maxSeqLen (Scheduler.init kvCache maxDepth capacity) where
  queued := fun _ hreq ↦ nomatch hreq
  pending := fun _ hreq ↦ nomatch hreq
  fresh := fun _ hseq ↦ nomatch hseq
  primed := fun _ hseq ↦ nomatch hseq
  running := fun _ _ hseq ↦ nomatch hseq
  dropped := fun _ hseq ↦ nomatch hseq

/-- A move of the program counter that keeps the requests and sequences where they are. -/
theorem goto (hfollowing : Following scheduler maxSeqLen s) (hpending : pc.pending ⊆ s.pc.pending)
    (hfresh : ∀ seq ∈ pc.fresh, seq ∈ s.pc.fresh) (hprimed : ∀ seq ∈ pc.primed, seq ∈ s.pc.primed)
    (hprogress : ∀ index, pc.progress index = s.pc.progress index) :
    Following scheduler maxSeqLen (s.goto pc) where
  queued := hfollowing.queued
  pending := fun req hreq ↦ hfollowing.pending req (hpending hreq)
  fresh := fun seq hseq ↦ hfollowing.fresh seq (hfresh seq hseq)
  primed := fun seq hseq ↦ hfollowing.primed seq (hprimed seq hseq)
  running := by
    intro index seq hseq
    change OnTrack scheduler maxSeqLen _ (pc.progress index) _ _ _
    rw [hprogress]
    exact hfollowing.running index seq hseq
  dropped := hfollowing.dropped

/-- A move of the program counter to a place where nothing is pending. -/
theorem settle (hfollowing : Following scheduler maxSeqLen s) (hpending : pc.pending = [])
    (hfresh : pc.fresh = none) (hprimed : pc.primed = none)
    (hprogress : ∀ index, pc.progress index = s.pc.progress index) :
    Following scheduler maxSeqLen (s.goto pc) := by
  apply hfollowing.goto _ _ _ hprogress
  · rw [hpending]
    exact List.nil_subset _
  · rw [hfresh]
    exact fun _ hseq ↦ nomatch hseq
  · rw [hprimed]
    exact fun _ hseq ↦ nomatch hseq

/-- Reaping, once every sequence that is left has its slot ready. -/
theorem reap (hfollowing : Following scheduler maxSeqLen s)
    (hslots : Slots scheduler origin s.pc s.running s.kvCache)
    (hready : ∀ index seq, s.running[index]? = some seq → seq.isDone = false →
      OnTrack scheduler maxSeqLen s.history.accepted .ready index (s.kvCache.stored seq.kvHandle) seq)
    (hpending : pc.pending = []) (hfresh : pc.fresh = none) (hprimed : pc.primed = none)
    (hprogress : ∀ index, pc.progress index = .ready) (metrics : SchedulerMetrics) :
    Following scheduler maxSeqLen { s.reapDoneSequences with metrics := metrics, pc := pc } where
  queued := hfollowing.queued
  pending := by
    rw [hpending]
    exact fun _ hreq ↦ nomatch hreq
  fresh := by
    rw [hfresh]
    exact fun _ hseq ↦ nomatch hseq
  primed := by
    rw [hprimed]
    exact fun _ hseq ↦ nomatch hseq
  running := by
    intro index seq hseq
    obtain ⟨hmem, hnot⟩ := List.mem_filter.mp (List.mem_of_getElem? hseq)
    obtain ⟨position, hposition⟩ := List.mem_iff_getElem?.mp hmem
    have hdone : seq.isDone = false := by simpa using hnot
    have hkept : seq.kvHandle ∉ (s.running.filter Sequence.isDone).map Sequence.kvHandle := by
      intro hin
      obtain ⟨other, hother, hsame⟩ := List.mem_map.mp hin
      obtain ⟨hotherMem, hotherDone⟩ := List.mem_filter.mp hother
      obtain rfl := List.inj_on_of_nodup_map hslots.nodup_running hotherMem hmem hsame
      rw [hdone] at hotherDone
      cases hotherDone
    have hstored : ({ s.reapDoneSequences with metrics := metrics, pc := pc } : State α).kvCache.stored
        seq.kvHandle = s.kvCache.stored seq.kvHandle := stored_freeSequences _ hkept
    rw [hstored]
    change OnTrack scheduler maxSeqLen _ (pc.progress index) _ _ _
    rw [hprogress]
    exact (hready position seq hposition hdone).move index
  dropped := by
    intro seq hseq
    rcases List.mem_append.mp hseq with hold | hnew
    · exact hfollowing.dropped seq hold
    · obtain ⟨other, hother, hsame⟩ := List.mem_map.mp hnew
      obtain rfl := Resolved.sequence.inj hsame
      obtain ⟨index, hindex⟩ := List.mem_iff_getElem?.mp (List.mem_filter.mp hother).1
      exact (hfollowing.running index other hindex).traces

/-- A step of the batch, with nothing pending: what is left to show is about `running`. -/
theorem batch {s' : State α} (hfollowing : Following scheduler maxSeqLen s)
    (hqueue : s'.queue = s.queue) (haccepted : s'.history.accepted = s.history.accepted)
    (hresolved : s'.history.resolved = s.history.resolved) (hpending : s'.pc.pending = [])
    (hfresh : s'.pc.fresh = none) (hprimed : s'.pc.primed = none)
    (hrunning : ∀ index seq, s'.running[index]? = some seq →
      OnTrack scheduler maxSeqLen s.history.accepted (s'.pc.progress index) index
        (s'.kvCache.stored seq.kvHandle) seq) : Following scheduler maxSeqLen s' where
  queued := by
    rw [hqueue, haccepted]
    exact hfollowing.queued
  pending := by
    rw [hpending]
    exact fun _ hreq ↦ nomatch hreq
  fresh := by
    rw [hfresh]
    exact fun _ hseq ↦ nomatch hseq
  primed := by
    rw [hprimed]
    exact fun _ hseq ↦ nomatch hseq
  running := by
    rw [haccepted]
    exact hrunning
  dropped := by
    rw [hresolved, haccepted]
    exact hfollowing.dropped

/-- One sequence of `running` is cancelled or failed, and the loop goes on behind it. -/
theorem modify (hfollowing : Following scheduler maxSeqLen s) (index : ℕ)
    {f : Sequence α → Sequence α}
    (hf : ∀ seq store, OnTrack scheduler maxSeqLen s.history.accepted (s.pc.progress index) index store
      seq → OnTrack scheduler maxSeqLen s.history.accepted (pc.progress index) index store (f seq))
    (hhandle : ∀ seq, (f seq).kvHandle = seq.kvHandle)
    (hpending : pc.pending = []) (hfresh : pc.fresh = none) (hprimed : pc.primed = none)
    (hprogress : ∀ other ≠ index, pc.progress other = s.pc.progress other) :
    Following scheduler maxSeqLen ((s.updateRunning index f).goto pc) := by
  refine hfollowing.batch rfl rfl rfl hpending hfresh hprimed ?_
  intro other seq hseq
  change (s.running.modify index f)[other]? = some seq at hseq
  change OnTrack scheduler maxSeqLen s.history.accepted (pc.progress other) other
    (s.kvCache.stored seq.kvHandle) seq
  by_cases heq : other = index
  · subst heq
    rw [List.getElem?_modify_eq] at hseq
    obtain ⟨before, hbefore, rfl⟩ := Option.map_eq_some_iff.mp hseq
    rw [hhandle]
    exact hf _ _ (hfollowing.running other before hbefore)
  · rw [List.getElem?_modify_ne _ _ (Ne.symm heq)] at hseq
    rw [hprogress other heq]
    exact hfollowing.running other seq hseq

/-- The candidate is given up, after whatever happened to its own channel and tensors. -/
theorem release (hfollowing : Following scheduler maxSeqLen s)
    {kvCache : SlabKvCache (KvTensor α)} (clients : ClientId → Client)
    (hslots : Slots scheduler origin s.pc s.running kvCache)
    (hstored : ∀ other ∈ s.running,
      kvCache.stored other.kvHandle = s.kvCache.stored other.kvHandle) {seq dropped : Sequence α}
    (hcandidate : s.pc.candidate = some seq) (hhandle : dropped.kvHandle = seq.kvHandle)
    (htraces : Traces scheduler maxSeqLen s.history.accepted dropped)
    (hprogress : ∀ index, s.pc.progress index = .ready) :
    Following scheduler maxSeqLen
      (({ s with kvCache := kvCache, clients := clients }.release dropped).goto .admission) where
  queued := hfollowing.queued
  pending := fun _ hreq ↦ nomatch hreq
  fresh := fun _ hseq ↦ nomatch hseq
  primed := fun _ hseq ↦ nomatch hseq
  running := by
    intro index other hother
    have htrack := hfollowing.running index other hother
    have hmem := List.mem_of_getElem? hother
    have hne := hslots.candidate_ne hcandidate hmem
    have hfreed : (kvCache.free dropped.kvHandle).stored other.kvHandle =
        s.kvCache.stored other.kvHandle := by
      rw [← hstored other hmem]
      funext layer
      rw [SlabKvCache.stored_free, hhandle, if_neg hne]
    change OnTrack scheduler maxSeqLen s.history.accepted .ready index
      ((kvCache.free dropped.kvHandle).stored other.kvHandle) other
    rw [hfreed]
    rwa [hprogress] at htrack
  dropped := by
    intro other hother
    rcases List.mem_append.mp hother with hold | hnew
    · exact hfollowing.dropped other hold
    · obtain rfl := Resolved.sequence.inj (List.mem_singleton.mp hnew)
      exact htraces

/-- The tensors of `running` are not touched by what happens to the candidate. -/
theorem running_of_stored (hfollowing : Following scheduler maxSeqLen s)
    {kvCache : SlabKvCache (KvTensor α)}
    (hstored : ∀ seq ∈ s.running, kvCache.stored seq.kvHandle = s.kvCache.stored seq.kvHandle)
    (hprogress : ∀ index, pc.progress index = s.pc.progress index) :
    ∀ index seq, s.running[index]? = some seq →
      OnTrack scheduler maxSeqLen s.history.accepted (pc.progress index) index
        (kvCache.stored seq.kvHandle) seq := by
  intro index seq hseq
  rw [hstored seq (List.mem_of_getElem? hseq), hprogress]
  exact hfollowing.running index seq hseq

/-- The queue operations drop requests, not sequences. -/
theorem prune (hfollowing : Following scheduler maxSeqLen s) (pruned : List (GenerationRequest α))
    {queue : RequestQueue α} (hsubset : queue.requests ⊆ s.queue.requests) :
    Following scheduler maxSeqLen (s.prune pruned queue) where
  queued := fun req hreq ↦ hfollowing.queued req (hsubset hreq)
  pending := hfollowing.pending
  fresh := hfollowing.fresh
  primed := hfollowing.primed
  running := hfollowing.running
  dropped := by
    intro seq hseq
    rcases List.mem_append.mp hseq with hold | hnew
    · exact hfollowing.dropped seq hold
    · obtain ⟨req, -, hreq⟩ := List.mem_map.mp hnew
      cases hreq

/-- A request that is answered and dropped leaves the sequences alone. -/
theorem answer (hfollowing : Following scheduler maxSeqLen s) (client : ClientId) (message : String)
    (req : GenerationRequest α) :
    Following scheduler maxSeqLen ((s.trySendError client message).resolve [.request req]) where
  queued := hfollowing.queued
  pending := hfollowing.pending
  fresh := hfollowing.fresh
  primed := hfollowing.primed
  running := hfollowing.running
  dropped := by
    intro seq hseq
    rcases List.mem_append.mp hseq with hold | hnew
    · exact hfollowing.dropped seq hold
    · cases List.mem_singleton.mp hnew

end Following

/-! ## Every step of the scheduler keeps to the tracks -/

section Step

variable {scheduler : Scheduler α} {origin : SlabKvCache (KvTensor α)} {maxSeqLen : ℕ} {s : State α}

theorem following_endStep (hfollowing : Following scheduler maxSeqLen s)
    (hslots : Slots scheduler origin s.pc s.running s.kvCache)
    (hready : ∀ index seq, s.running[index]? = some seq → seq.isDone = false →
      OnTrack scheduler maxSeqLen s.history.accepted .ready index
        (s.kvCache.stored seq.kvHandle) seq) :
    Following scheduler maxSeqLen (endStep s) :=
  hfollowing.reap hslots hready rfl rfl rfl (fun _ ↦ rfl) _

theorem following_endLoop {site : Site α} (hfollowing : Following scheduler maxSeqLen s)
    (hslots : Slots scheduler origin s.pc s.running s.kvCache) (hpc : s.pc = .checkDone site)
    (hnone : site.client s.running = none) : Following scheduler maxSeqLen (endLoop site s) := by
  have hrunning := hfollowing.running
  rw [hpc] at hrunning
  cases site with
  | removing index =>
      exact hfollowing.reap hslots (fun index seq hseq _ ↦ hrunning index seq hseq) rfl rfl rfl
        (fun _ ↦ rfl) _
  | delivering index logits =>
      apply following_endStep hfollowing hslots
      intro other seq hseq _
      have htrack := hrunning other seq hseq
      have hlt : ¬ index ≤ other := by
        intro hle
        have hlength := List.getElem?_eq_none_iff.mp (Option.map_eq_none_iff.mp hnone)
        rw [List.getElem?_eq_none (hlength.trans hle)] at hseq
        cases hseq
      have hprogress : (Pc.checkDone (.delivering index logits)).progress other = .ready :=
        if_neg hlt
      rwa [hprogress] at htrack
  | popped req => cases hnone
  | allocated seq => cases hnone
  | prefilled seq => cases hnone

theorem following_abandon {site : Site α} (hfollowing : Following scheduler maxSeqLen s)
    (hslots : Slots scheduler origin s.pc s.running s.kvCache)
    (hpc : s.pc = .checkDone site ∨ ∃ client, s.pc = .checkClosed site client) :
    Following scheduler maxSeqLen (abandon site s) := by
  have hprogress : ∀ index, s.pc.progress index = site.progress index := by
    rcases hpc with hpc | ⟨client, hpc⟩ <;> (rw [hpc]; exact fun _ ↦ rfl)
  have hcandidate : s.pc.candidate = site.candidate := by
    rcases hpc with hpc | ⟨client, hpc⟩ <;> (rw [hpc]; rfl)
  cases site with
  | removing index =>
      exact hfollowing.modify index (fun _ _ htrack ↦ htrack.cancel) Sequence.cancel_kvHandle
        rfl rfl rfl fun other _ ↦ (hprogress other).symm
  | popped req =>
      have hgoto : Following scheduler maxSeqLen (s.goto .admission) :=
        hfollowing.settle rfl rfl rfl fun index ↦ (hprogress index).symm
      refine { hgoto with dropped := ?_ }
      intro seq hseq
      rcases List.mem_append.mp hseq with hold | hnew
      · exact hfollowing.dropped seq hold
      · cases List.mem_singleton.mp hnew
  | allocated seq =>
      apply hfollowing.release s.clients hslots (fun _ _ ↦ rfl) hcandidate
        (Sequence.cancel_kvHandle seq) _ hprogress
      have hfresh : seq ∈ s.pc.fresh := by
        rcases hpc with hpc | ⟨client, hpc⟩ <;> (rw [hpc]; exact Option.mem_some_self _)
      exact (hfollowing.fresh seq hfresh).traces_of_interrupts (Sequence.Interrupts.refl seq).cancel
        (Sequence.cancel_kvHandle seq)
  | prefilled seq =>
      apply hfollowing.release s.clients hslots (fun _ _ ↦ rfl) hcandidate
        (Sequence.cancel_kvHandle seq) _ hprogress
      have hprimed : seq ∈ s.pc.primed := by
        rcases hpc with hpc | ⟨client, hpc⟩ <;> (rw [hpc]; exact Option.mem_some_self _)
      exact (hfollowing.primed seq hprimed).traces_cancel
  | delivering index logits =>
      apply hfollowing.modify index (fun _ _ htrack ↦ htrack.cancel) Sequence.cancel_kvHandle
        rfl rfl rfl
      intro other hne
      rw [hprogress]
      change (if index + 1 ≤ other then _ else _) = if index ≤ other then _ else _
      split_ifs <;> first | rfl | omega

theorem following_proceed {site : Site α} {client : ClientId}
    (hfollowing : Following scheduler maxSeqLen s) (hpc : s.pc = .checkClosed site client) :
    Following scheduler maxSeqLen (proceed site s) := by
  cases site with
  | removing index =>
      exact hfollowing.settle rfl rfl rfl fun _ ↦ by rw [hpc]; rfl
  | popped req =>
      apply hfollowing.goto
      · rw [hpc]
        exact List.Subset.refl _
      · exact fun _ hseq ↦ nomatch hseq
      · exact fun _ hseq ↦ nomatch hseq
      · rw [hpc]
        exact fun _ ↦ rfl
  | allocated seq =>
      apply hfollowing.goto
      · exact List.nil_subset _
      · rw [hpc]
        exact fun _ hseq ↦ hseq
      · exact fun _ hseq ↦ nomatch hseq
      · rw [hpc]
        exact fun _ ↦ rfl
  | prefilled seq =>
      refine hfollowing.batch rfl rfl rfl rfl rfl rfl ?_
      intro index other hother
      change (s.running ++ [seq])[index]? = some other at hother
      rcases Nat.lt_or_ge index s.running.length with hlt | hge
      · rw [List.getElem?_append_left hlt] at hother
        have htrack := hfollowing.running index other hother
        rwa [hpc] at htrack
      · rw [List.getElem?_append_right hge] at hother
        obtain rfl := List.mem_singleton.mp (List.mem_of_getElem? hother)
        have hprimed : other ∈ s.pc.primed := by
          rw [hpc]
          exact Option.mem_some_self _
        exact (hfollowing.primed other hprimed).move index
  | delivering index logits =>
      exact hfollowing.settle rfl rfl rfl fun _ ↦ by rw [hpc]; rfl

theorem following_tryPop (hfollowing : Following scheduler maxSeqLen s) (hpc : s.pc = .admission)
    (late : List ClientId) : Following scheduler maxSeqLen (tryPop late s) := by
  have hprogress : ∀ index, s.pc.progress index = .ready := by
    rw [hpc]
    exact fun _ ↦ rfl
  unfold tryPop
  rcases RequestQueue.tryPop_cases (s.isOpen late) s.queue with
    ⟨hpop, -⟩ | ⟨req, rest, hpop, hperm⟩
  · rw [hpop]
    have hpruned := hfollowing.prune (s.queue.pruned (s.isOpen late))
      (s.queue.retainOpen_subset (s.isOpen late))
    have hgoto : Following scheduler maxSeqLen ((s.prune (s.queue.pruned (s.isOpen late))
        (s.queue.retainOpen (s.isOpen late))).goto (.evict 0)) :=
      hpruned.settle rfl rfl rfl fun index ↦ (hprogress index).symm
    exact { hgoto with }
  · rw [hpop]
    have hsubset : req :: rest ⊆ s.queue.requests :=
      List.Subset.trans hperm.subset (s.queue.retainOpen_subset (s.isOpen late))
    have hpruned : Following scheduler maxSeqLen (s.prune (s.queue.pruned (s.isOpen late))
        { s.queue.retainOpen (s.isOpen late) with requests := rest }) :=
      hfollowing.prune _ (List.Subset.trans (List.subset_cons_self req rest) hsubset)
    refine { hpruned with pending := ?_, fresh := ?_, primed := ?_, running := ?_ }
    · intro other hother
      obtain rfl := List.mem_singleton.mp hother
      exact hfollowing.queued other (hsubset List.mem_cons_self)
    · exact fun _ hseq ↦ nomatch hseq
    · exact fun _ hseq ↦ nomatch hseq
    · intro index seq hseq
      have htrack := hfollowing.running index seq hseq
      rwa [hprogress] at htrack

theorem following_admitRequest {req : GenerationRequest α} (hfollowing : Following scheduler origin.maxSeqLen s)
    (hslots : Slots scheduler origin s.pc s.running s.kvCache) (hpc : s.pc = .admitRequest req) :
    Following scheduler origin.maxSeqLen (admitRequest scheduler req s) := by
  have hprogress : ∀ index, s.pc.progress index = .ready := by
    rw [hpc]
    exact fun _ ↦ rfl
  unfold admitRequest
  split
  · exact (hfollowing.answer _ _ _).settle rfl rfl rfl fun index ↦ (hprogress index).symm
  rename_i hvalid
  have hadmitted := validateRequest_eq_ok.mp hvalid
  rw [hslots.sameShape.maxSeqLen_eq] at hadmitted
  unfold Sequence.new
  cases hallocate : s.kvCache.allocate req.promptLen req.maxNewTokens with
  | mk result kvCache =>
      cases result with
      | error err =>
          have hsame := SlabKvCache.allocate_error (congrArg Prod.fst hallocate)
          rw [hallocate] at hsame
          subst hsame
          exact (hfollowing.answer _ _ _).settle rfl rfl rfl fun index ↦ (hprogress index).symm
      | ok handle =>
          have hstored := SlabKvCache.stored_allocate hslots.wf hallocate
          obtain ⟨-, -, rest, -, hhandle, -⟩ := SlabKvCache.allocate_eq_ok hallocate
          constructor
          case queued => exact hfollowing.queued
          case pending => exact fun _ hreq ↦ nomatch hreq
          case primed => exact fun _ hseq ↦ nomatch hseq
          case dropped => exact hfollowing.dropped
          case fresh =>
            intro seq hseq
            obtain rfl := Option.mem_some_iff.mp hseq
            have hreq : req ∈ s.pc.pending := by
              rw [hpc]
              exact List.mem_singleton_self req
            refine ⟨req, hfollowing.pending req hreq, hadmitted, rfl, ?_, ?_⟩
            · change handle.capacityTokens = _
              rw [hhandle]
            · intro layer
              change kvCache.stored handle layer = none
              rw [hstored, if_pos rfl]
          case running =>
            apply hfollowing.running_of_stored
            · intro seq hseq
              funext layer
              have hfresh := SlabKvCache.allocate_slot_fresh hslots.wf hallocate
              have hne : seq.kvHandle ≠ handle := by
                rintro rfl
                exact hfresh (Finmap.mem_of_lookup_eq_some (hslots.current hseq))
              rw [hstored, if_neg hne]
            · exact fun index ↦ (hprogress index).symm

theorem following_prefill {seq : Sequence α} (hfollowing : Following scheduler maxSeqLen s)
    (hslots : Slots scheduler origin s.pc s.running s.kvCache) (hpc : s.pc = .prefill seq) :
    Following scheduler maxSeqLen (prefill scheduler seq s) := by
  have hprogress : ∀ index, s.pc.progress index = .ready := by
    rw [hpc]
    exact fun _ ↦ rfl
  have hcandidate : s.pc.candidate = some seq := by
    rw [hpc]
    rfl
  have hfresh : Untouched scheduler maxSeqLen s.history.accepted (s.kvCache.stored seq.kvHandle) seq :=
    hfollowing.fresh seq (by rw [hpc]; exact Option.mem_some_self seq)
  have hcurrent := hslots.current_candidate hcandidate
  have hconfined := scheduler.model.confined_prefill seq.promptTokens seq.kvHandle s.kvCache hslots.wf
  have hothers : ∀ other ∈ s.running,
      (scheduler.model.prefill seq.promptTokens seq.kvHandle s.kvCache).2.stored other.kvHandle =
        s.kvCache.stored other.kvHandle := by
    intro other hother
    apply hconfined.stored_eq
    rw [List.mem_singleton]
    exact hslots.candidate_ne hcandidate hother
  unfold prefill
  cases hrun : scheduler.model.prefill seq.promptTokens seq.kvHandle s.kvCache with
  | mk result kvCache =>
      rw [hrun] at hothers hconfined
      cases result with
      | error err =>
          exact hfollowing.release _ (hslots.confined hconfined) hothers hcandidate
            (Sequence.fail_kvHandle seq)
            (hfresh.traces_of_interrupts (Sequence.Interrupts.refl seq).fail
              (Sequence.fail_kvHandle seq)) hprogress
      | ok _ =>
          obtain ⟨req, hreq, hadmitted, hseq, hcapacity, hnone⟩ := hfresh
          obtain ⟨haccepts, hstored⟩ := SmallTransformer.prefill_eq_ok hslots.wf hcurrent hrun
          constructor
          case queued => exact hfollowing.queued
          case pending => exact fun _ hpending ↦ nomatch hpending
          case fresh => exact fun _ hother ↦ nomatch hother
          case dropped => exact hfollowing.dropped
          case running =>
            exact hfollowing.running_of_stored hothers fun index ↦ (hprogress index).symm
          case primed =>
            intro primed hprimed
            obtain rfl := Option.mem_some_iff.mp hprimed
            have hhandle := seq.markRunning_kvHandle
            refine ⟨req, hreq, 0, ⟨hadmitted, ?_, ⟨?_, ?_⟩, ?_⟩, ?_⟩
            · rw [hhandle]
              exact hcapacity
            · rw [hseq] at haccepts
              exact haccepts
            · exact fun turn hturn ↦ absurd hturn (Nat.not_lt_zero turn)
            · rw [hhandle]
              refine Or.inl ?_
              change seq.markRunning = (Sequence.ofRequest req seq.kvHandle).markRunning
              rw [← hseq]
            · intro _
              have hpromptTokens : seq.promptTokens = req.promptTokens := by
                rw [hseq]
                rfl
              change kvCache.stored seq.markRunning.kvHandle =
                scheduler.model.prefillStore req.promptTokens fun _ ↦ none
              rw [hhandle, hstored, hpromptTokens, funext hnone]

theorem following_evictAt {index : ℕ} (hfollowing : Following scheduler maxSeqLen s)
    (hslots : Slots scheduler origin s.pc s.running s.kvCache) (hpc : s.pc = .evict index) :
    Following scheduler maxSeqLen (evictAt scheduler index s) := by
  have hprogress : ∀ other, s.pc.progress other = .ready := by
    rw [hpc]
    exact fun _ ↦ rfl
  unfold evictAt
  split
  · have hready : ∀ index seq, s.running[index]? = some seq → seq.isDone = false →
        OnTrack scheduler maxSeqLen s.history.accepted .ready index
          (s.kvCache.stored seq.kvHandle) seq := by
      intro other seq hseq _
      have htrack := hfollowing.running other seq hseq
      rwa [hprogress] at htrack
    dsimp only
    split
    · exact hfollowing.reap hslots hready rfl rfl rfl (fun _ ↦ rfl) _
    · exact hfollowing.reap hslots hready rfl rfl rfl (fun _ ↦ rfl) _
  · rename_i seq hseq
    dsimp only
    split
    · have hsent : Following scheduler maxSeqLen (s.trySendError seq.client
          s!"decode position {seq.decodePosition} exceeds model capacity {scheduler.model.maxPositions} for request {seq.id}") :=
        { hfollowing with }
      exact hsent.modify index (fun _ _ htrack ↦ htrack.fail) Sequence.fail_kvHandle rfl rfl rfl
        fun other _ ↦ (hprogress other).symm
    · exact hfollowing.settle rfl rfl rfl fun other ↦ (hprogress other).symm

theorem following_failBatchAt {index : ℕ} {message : String}
    (hfollowing : Following scheduler maxSeqLen s)
    (hslots : Slots scheduler origin s.pc s.running s.kvCache)
    (hpc : s.pc = .failBatch index message) :
    Following scheduler maxSeqLen (failBatchAt index message s) := by
  unfold failBatchAt
  split
  · rename_i hend
    apply following_endStep hfollowing hslots
    intro other seq hseq hdone
    have hlt : ¬ index ≤ other := by
      intro hle
      rw [List.getElem?_eq_none ((List.getElem?_eq_none_iff.mp hend).trans hle)] at hseq
      cases hseq
    -- Everything before the end of the loop has failed.
    have htrack := hfollowing.running other seq hseq
    have hgone : s.pc.progress other = .gone := by
      rw [hpc]
      exact if_neg hlt
    rw [hgone] at htrack
    obtain ⟨req, hreq, turns, hfollows, hcached⟩ := htrack
    exact (hcached hdone).elim
  · rename_i seq hseq
    have hsent : Following scheduler maxSeqLen (s.trySendError seq.client message) :=
      { hfollowing with }
    apply hsent.modify index (fun _ _ htrack ↦ htrack.fail) Sequence.fail_kvHandle rfl rfl rfl
    intro other hne
    change (if index + 1 ≤ other then _ else _) = s.pc.progress other
    rw [hpc]
    change _ = if index ≤ other then _ else _
    split_ifs <;> first | rfl | omega

theorem following_sendItems {index : ℕ} {logits : List (LogitRow α)} {items : List StreamItem}
    (hfollowing : Following scheduler maxSeqLen s) (hpc : s.pc = .sendItems index logits items) :
    Following scheduler maxSeqLen (sendItems index logits items s) := by
  unfold sendItems
  split
  · rename_i seq item rest _
    have hsent : Following scheduler maxSeqLen (s.updateClient seq.client (Client.send item)) :=
      { hfollowing with }
    exact hsent.settle rfl rfl rfl fun _ ↦ by
      change _ = s.pc.progress _
      rw [hpc]
      rfl
  · exact hfollowing.settle rfl rfl rfl fun _ ↦ by
      rw [hpc]
      rfl

/-- A decode pass takes every sequence one turn ahead, or fails for all of them. -/
theorem following_forward (hfollowing : Following scheduler maxSeqLen s)
    (hslots : Slots scheduler origin s.pc s.running s.kvCache) (hpc : s.pc = .forward) :
    Following scheduler maxSeqLen (forward scheduler s) := by
  have hnodup := hslots.nodup_decodeInputs
  have hcurrent := hslots.current_decodeInputs
  unfold forward
  by_cases hok : ∀ input ∈ s.running.map Sequence.decodeInput,
      scheduler.model.RowOk s.kvCache input
  · obtain ⟨kvCache, hrun, hstored⟩ :=
      SmallTransformer.forward_of_rowsOk _ hslots.wf hnodup hcurrent hok
    rw [hrun]
    refine hfollowing.batch rfl rfl rfl rfl rfl rfl ?_
    intro index seq hseq
    have htrack := hfollowing.running index seq hseq
    rw [hpc] at htrack
    obtain ⟨req, hreq, turns, hfollows, hcached⟩ := htrack
    have hdone := hslots.notDone_at hpc hseq trivial
    have hstore := hcached hdone
    have hafter := hfollows.eq_after hdone
    have hinput : seq.decodeInput ∈ s.running.map Sequence.decodeInput :=
      List.mem_map_of_mem (List.mem_of_getElem? hseq)
    refine ⟨req, hreq, turns, hfollows, fun _ ↦ ?_⟩
    change Cached _ index _ _ (if 0 ≤ index then .ahead _ else .ready)
    rw [if_pos (Nat.zero_le index)]
    unfold Cached at hstore ⊢
    rw [← hafter, ← hstore]
    refine ⟨?_, hstored _ hinput, (hok _ hinput).accepts⟩
    rw [List.getElem?_map, List.getElem?_map, hseq]
    rfl
  · push Not at hok
    obtain ⟨err, herr⟩ := SmallTransformer.forward_of_not_rowsOk _ hslots.wf hnodup hcurrent hok
    cases hrun : scheduler.model.forward (s.running.map Sequence.decodeInput) s.kvCache with
    | mk result kvCache =>
        rw [hrun] at herr
        obtain rfl : result = .error err := herr
        refine hfollowing.batch rfl rfl rfl rfl rfl rfl ?_
        intro index seq hseq
        obtain ⟨req, hreq, turns, hfollows, -⟩ := hfollowing.running index seq hseq
        exact ⟨req, hreq, turns, hfollows, fun _ ↦ trivial⟩

/-- Delivering a row moves its sequence one turn on. -/
theorem following_sampleToken {index : ℕ} {logits : List (LogitRow α)}
    (hfollowing : Following scheduler maxSeqLen s)
    (hslots : Slots scheduler origin s.pc s.running s.kvCache)
    (hpc : s.pc = .sampleToken index logits) :
    Following scheduler maxSeqLen (sampleToken index logits s) := by
  have hprogress : ∀ other, s.pc.progress other = if index ≤ other then .ahead logits else .ready := by
    rw [hpc]
    exact fun _ ↦ rfl
  have hbehind : ∀ other ≠ index,
      (if index < other then Progress.ahead logits else .ready) = s.pc.progress other := by
    intro other hne
    rw [hprogress]
    split_ifs <;> first | rfl | omega
  unfold sampleToken
  split
  · rename_i hend
    apply following_endStep hfollowing hslots
    intro other seq hseq _
    have htrack := hfollowing.running other seq hseq
    rwa [hprogress, if_neg] at htrack
    intro hle
    rw [List.getElem?_eq_none ((List.getElem?_eq_none_iff.mp hend).trans hle)] at hseq
    cases hseq
  rename_i seq hseq
  split
  · rename_i err _
    have hsent : Following scheduler maxSeqLen (s.trySendError seq.client
        s!"decode row failed for request {seq.id}: {err.message}") := { hfollowing with }
    exact hsent.modify index (fun _ _ htrack ↦ htrack.fail) Sequence.fail_kvHandle rfl rfl rfl hbehind
  rename_i row hrow
  have hdone := hslots.notDone_at hpc hseq (Nat.le_refl index)
  have htrack := hfollowing.running index seq hseq
  rw [hprogress, if_pos (Nat.le_refl index)] at htrack
  split
  · rename_i hpanic
    obtain ⟨tokens, stepped, hadvance⟩ := htrack.exists_advance hdone row
    rw [hpanic] at hadvance
    cases hadvance
  rename_i tokens stepped hadvance
  have hstepped := htrack.advance hdone (logitRow_eq_ok.mp hrow) hadvance
  obtain ⟨-, -, hhandle, -⟩ := Sequence.advance_frame hadvance
  have hrunning : ∀ delivered : Bool, ∀ other found,
      (s.running.set index (if delivered then stepped else stepped.cancel))[other]? = some found →
      OnTrack scheduler maxSeqLen s.history.accepted
        (if index < other then .ahead logits else .ready) other (s.kvCache.stored found.kvHandle)
        found := by
    intro delivered other found hfound
    by_cases heq : other = index
    · subst heq
      rw [List.getElem?_set_self (List.getElem?_eq_some_iff.mp hseq).1, Option.some_inj] at hfound
      rw [if_neg (Nat.lt_irrefl other)]
      cases delivered with
      | true =>
          obtain rfl : stepped = found := hfound
          rw [hhandle]
          exact hstepped
      | false =>
          obtain rfl : stepped.cancel = found := hfound
          exact hstepped.cancel
    · rw [List.getElem?_set_ne (Ne.symm heq)] at hfound
      rw [hbehind other heq]
      exact hfollowing.running other found hfound
  dsimp only
  split
  · exact hfollowing.batch rfl rfl rfl rfl rfl rfl (hrunning true)
  · exact hfollowing.batch rfl rfl rfl rfl rfl rfl (hrunning false)

theorem following_answerRunning (hfollowing : Following scheduler maxSeqLen s)
    (hslots : Slots scheduler origin s.pc s.running s.kvCache) (hpc : s.pc = .answerRunning) :
    Following scheduler maxSeqLen (answerRunning s) := by
  have hprogress : ∀ index, s.pc.progress index = .ready := by
    rw [hpc]
    exact fun _ ↦ rfl
  unfold answerRunning
  split
  · have hgoto : Following scheduler maxSeqLen (s.goto .returned) :=
      hfollowing.settle rfl rfl rfl fun index ↦ (hprogress index).symm
    exact { hgoto with }
  · rename_i seq rest hrunning
    have hnodup := hslots.nodup_running
    rw [hrunning, List.map_cons, List.nodup_cons] at hnodup
    constructor
    case queued => exact hfollowing.queued
    case pending => exact fun _ hreq ↦ nomatch hreq
    case fresh => exact fun _ hother ↦ nomatch hother
    case primed => exact fun _ hother ↦ nomatch hother
    case running =>
      intro index other hother
      change rest[index]? = some other at hother
      have htrack := hfollowing.running (index + 1) other (by rw [hrunning]; exact hother)
      rw [hprogress] at htrack
      have hne : other.kvHandle ≠ seq.kvHandle := fun heq ↦
        hnodup.1 (heq ▸ List.mem_map_of_mem (List.mem_of_getElem? hother))
      have hstored : (s.kvCache.free seq.kvHandle).stored other.kvHandle =
          s.kvCache.stored other.kvHandle := by
        funext layer
        rw [SlabKvCache.stored_free, if_neg hne]
      change OnTrack scheduler maxSeqLen s.history.accepted .ready index
        ((s.kvCache.free seq.kvHandle).stored other.kvHandle) other
      rw [hstored]
      exact htrack.move index
    case dropped =>
      intro other hother
      rcases List.mem_append.mp hother with hold | hnew
      · exact hfollowing.dropped other hold
      · obtain rfl := Resolved.sequence.inj (List.mem_singleton.mp hnew)
        exact (hfollowing.running 0 other (by rw [hrunning]; rfl)).traces

theorem following_answerQueued {drained : List (GenerationRequest α)}
    (hfollowing : Following scheduler maxSeqLen s) (hpc : s.pc = .answerQueued drained) :
    Following scheduler maxSeqLen (answerQueued drained s) := by
  have hprogress : ∀ index, s.pc.progress index = .ready := by
    rw [hpc]
    exact fun _ ↦ rfl
  cases drained with
  | nil => exact hfollowing.settle rfl rfl rfl fun index ↦ (hprogress index).symm
  | cons req rest =>
      apply (hfollowing.answer req.client shutdownMessage req).goto
      · change rest ⊆ s.pc.pending
        rw [hpc]
        exact List.subset_cons_self req rest
      · exact fun _ hseq ↦ nomatch hseq
      · exact fun _ hseq ↦ nomatch hseq
      · exact fun index ↦ (hprogress index).symm

/-- **Every step of the scheduler keeps all sequences on their tracks.** -/
theorem following_schedStep {late : List ClientId} {s' : State α}
    (hfollowing : Following scheduler origin.maxSeqLen s)
    (hslots : Slots scheduler origin s.pc s.running s.kvCache)
    (hstep : SchedStep scheduler late s s') : Following scheduler origin.maxSeqLen s' := by
  cases hstep with
  | stop hpc _ => exact hfollowing.settle rfl rfl rfl fun _ ↦ by rw [hpc]; rfl
  | enter hpc => exact hfollowing.settle rfl rfl rfl fun _ ↦ by rw [hpc]; rfl
  | endLoop hpc hclient => exact following_endLoop hfollowing hslots hpc hclient
  | responseDone hpc _ _ => exact following_abandon hfollowing hslots (Or.inl hpc)
  | responseWanted hpc _ _ =>
      apply hfollowing.goto
      · rw [hpc]
        exact List.Subset.refl _
      · rw [hpc]
        exact fun _ hseq ↦ hseq
      · rw [hpc]
        exact fun _ hseq ↦ hseq
      · rw [hpc]
        exact fun _ ↦ rfl
  | @closed site client hpc _ =>
      have hcounted : Following scheduler origin.maxSeqLen (s.recordCancelled [client]) :=
        { hfollowing with }
      exact following_abandon hcounted hslots (Or.inr ⟨client, hpc⟩)
  | stillOpen hpc _ => exact following_proceed hfollowing hpc
  | full hpc =>
      have hgoto : Following scheduler origin.maxSeqLen (s.goto (.evict 0)) :=
        hfollowing.settle rfl rfl rfl fun _ ↦ by rw [hpc]; rfl
      exact { hgoto with }
  | tryPop hpc _ => exact following_tryPop hfollowing hpc late
  | admitRequest hpc => exact following_admitRequest hfollowing hslots hpc
  | prefill hpc => exact following_prefill hfollowing hslots hpc
  | evict hpc => exact following_evictAt hfollowing hslots hpc
  | park hpc _ => exact hfollowing.settle rfl rfl rfl fun _ ↦ by rw [hpc]; rfl
  | resume hpc => exact hfollowing.settle rfl rfl rfl fun _ ↦ by rw [hpc]; rfl
  | wake hpc _ =>
      have hgoto : Following scheduler origin.maxSeqLen (s.goto .idleCheck) :=
        hfollowing.settle rfl rfl rfl fun _ ↦ by rw [hpc]; rfl
      exact { hgoto with }
  | forward hpc => exact following_forward hfollowing hslots hpc
  | failBatch hpc => exact following_failBatchAt hfollowing hslots hpc
  | sampleToken hpc => exact following_sampleToken hfollowing hslots hpc
  | sendItems hpc => exact following_sendItems hfollowing hpc
  | closeQueue hpc =>
      constructor
      case queued => exact fun _ hreq ↦ nomatch hreq
      case pending => exact hfollowing.queued
      case fresh => exact fun _ hseq ↦ nomatch hseq
      case primed => exact fun _ hseq ↦ nomatch hseq
      case running =>
        intro index seq hseq
        have htrack := hfollowing.running index seq hseq
        rwa [hpc] at htrack
      case dropped => exact hfollowing.dropped
  | answerQueued hpc => exact following_answerQueued hfollowing hpc
  | answerRunning hpc => exact following_answerRunning hfollowing hslots hpc

/-- Submitters and connections cannot push a sequence off its track. -/
theorem following_step {action : Action α} {s' : State α}
    (hfollowing : Following scheduler origin.maxSeqLen s)
    (hslots : Slots scheduler origin s.pc s.running s.kvCache)
    (hstep : step scheduler action s = some s') : Following scheduler origin.maxSeqLen s' := by
  cases step_cases hstep with
  | sched hsched => exact following_schedStep hfollowing hslots hsched
  | schedShutdown hpc _ =>
      rcases hpc with hpc | hpc
      · exact hfollowing.settle rfl rfl rfl fun _ ↦ by rw [hpc]; rfl
      · exact hfollowing.settle rfl rfl rfl fun _ ↦ by rw [hpc]; rfl
  | @refuse req late _ _ =>
      exact { hfollowing.prune _ (s.queue.retainOpen_subset (s.isOpen late)) with }
  | @accept req late _ _ _ =>
      have hpruned := hfollowing.prune (s.queue.pruned (s.isOpen late))
        (s.queue.retainOpen_subset (s.isOpen late))
      have hmore : s.history.accepted ⊆ s.history.accepted ++ [req] := List.subset_append_left _ _
      constructor
      case queued =>
        intro other hother
        rcases List.mem_append.mp hother with hold | hnew
        · exact hmore (hpruned.queued other hold)
        · exact List.mem_append_right _ hnew
      case pending => exact fun other hother ↦ hmore (hfollowing.pending other hother)
      case fresh => exact fun seq hseq ↦ (hfollowing.fresh seq hseq).mono hmore
      case primed => exact fun seq hseq ↦ (hfollowing.primed seq hseq).mono hmore
      case running => exact fun index seq hseq ↦ (hfollowing.running index seq hseq).mono hmore
      case dropped => exact fun seq hseq ↦ (hpruned.dropped seq hseq).mono hmore
  | notify _ => exact { hfollowing with }
  | client _ => exact { hfollowing with }
  | shutdown => exact { hfollowing with }

theorem following_reachable {allowed : State α → Action α → Prop} {maxDepth : ℕ}
    {capacity : ClientId → ℕ} {maxSeqs maxSeqLen numLayers nHeads headDim : ℕ}
    (hreach : Reaches scheduler allowed
      (init (.new maxSeqs maxSeqLen numLayers nHeads headDim) maxDepth capacity) s) :
    Following scheduler maxSeqLen s := by
  refine hreach.invariant ?_ (Following.init _ _ _)
  intro before after action hbefore hfollowing _ hnext
  exact following_step hfollowing (slots_reachable hbefore) hnext

end Step

end Scheduler

end HotBatch
