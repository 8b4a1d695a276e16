import HotBatch.Core.RationalKernels
import HotBatch.Core.Vocabulary
import HotBatch.Scheduler.Protocol
import HotBatch.Scheduler.WithinCapacity

/-!
# Whose fault an error is

A request is validated and prefilled alone, and its last prompt token is first looked at in a decode
pass, which it shares with all others. If no request ends outside of the vocabulary, decode passes
never fail, and apart from the shutdown an error only goes to a request that was refused or whose own
prompt was rejected.
-/

namespace HotBatch

namespace Sequence

variable {α : Type}

/-- A sequence that has not failed is not made to fail by a cancellation. -/
theorem cancel_state_ne_failed {seq : Sequence α} (hstate : seq.state ≠ .failed) :
    seq.cancel.state ≠ .failed := by
  unfold cancel
  split
  · exact hstate
  · exact SequenceState.noConfusion

theorem state_ne_failed_of_not_done {seq : Sequence α} (hdone : seq.isDone = false) :
    seq.state ≠ .failed := by
  intro hfailed
  rw [isDone, hfailed] at hdone
  cases hdone

end Sequence

namespace Scheduler

variable {α : Type}

/-- No error waits to be sent with an update, no decode pass has failed, and a request that has been
popped finds a free slot. -/
def Pc.Sound (kvCache : SlabKvCache (KvTensor α)) : Pc α → Prop
  | .failBatch _ _ => False
  | .sendItems _ _ items => ∀ message, .error message ∉ items
  | .checkDone (.popped _) | .checkClosed (.popped _) _ | .admitRequest _ => kvCache.freeSlots ≠ []
  | _ => True

variable [Kernels α]

/-- No submitted request ends outside of the vocabulary while validation and its own prefill let it
through. -/
def EndsAccepted (scheduler : Scheduler α) (s : State α) : Action α → Prop
  | .submit req _ =>
      validateRequest scheduler s.kvCache req = .ok () →
        scheduler.model.AcceptsPrompt req.promptTokens →
          scheduler.model.EndsInVocab req.promptTokens
  | .sched _ | .schedShutdown | .notify | .client _ _ | .shutdown => True

/-- Validation refuses the request of this client, or the model rejects its prompt. -/
def OwnFault (scheduler : Scheduler α) (maxSeqLen : ℕ) (accepted : List (GenerationRequest α))
    (client : ClientId) : Prop :=
  ∃ req ∈ accepted, req.client = client ∧
    (¬ Admitted scheduler maxSeqLen req ∨ ¬ scheduler.model.AcceptsPrompt req.promptTokens)

/-- An error that is nobody else's fault. -/
def Deserved (scheduler : Scheduler α) (maxSeqLen : ℕ) (s : State α) (client : ClientId)
    (message : String) : Prop :=
  message = shutdownMessage ∧ s.queue.closed = true ∨
    OwnFault scheduler maxSeqLen s.history.accepted client

/-- Nobody has suffered from a fault of somebody else. -/
structure Isolated (scheduler : Scheduler α) (maxSeqLen : ℕ) (s : State α) : Prop where
  ends : ∀ req ∈ s.history.accepted, Admitted scheduler maxSeqLen req →
    scheduler.model.AcceptsPrompt req.promptTokens →
      scheduler.model.EndsInVocab req.promptTokens
  sound : s.pc.Sound s.kvCache
  errors : ∀ client message, .error message ∈ (s.clients client).sent →
    Deserved scheduler maxSeqLen s client message
  running : ∀ seq ∈ s.running, seq.state ≠ .failed
  resolved : ∀ seq, Resolved.sequence seq ∈ s.history.resolved → seq.state = .failed →
    ¬ scheduler.model.AcceptsPrompt seq.promptTokens

namespace Isolated

variable {scheduler : Scheduler α} {maxSeqLen : ℕ} {s s' : State α}

/-- A step that neither fails a sequence nor sends an undeserved error. -/
theorem move (hisolated : Isolated scheduler maxSeqLen s)
    (haccepted : s'.history.accepted = s.history.accepted)
    (hclosed : s.queue.closed = true → s'.queue.closed = true) (hsound : s'.pc.Sound s'.kvCache)
    (herrors : ∀ client message, .error message ∈ (s'.clients client).sent →
      .error message ∈ (s.clients client).sent ∨ Deserved scheduler maxSeqLen s client message)
    (hrunning : ∀ seq ∈ s'.running, seq.state ≠ .failed)
    (hresolved : ∀ seq, Resolved.sequence seq ∈ s'.history.resolved →
      .sequence seq ∈ s.history.resolved ∨
        (seq.state = .failed → ¬ scheduler.model.AcceptsPrompt seq.promptTokens)) :
    Isolated scheduler maxSeqLen s' where
  ends := by
    rw [haccepted]
    exact hisolated.ends
  sound := hsound
  errors := by
    intro client message hmem
    have hdeserved : Deserved scheduler maxSeqLen s client message := by
      rcases herrors client message hmem with hold | hnew
      · exact hisolated.errors client message hold
      · exact hnew
    unfold Deserved
    rw [haccepted]
    exact hdeserved.imp_left (And.imp_right hclosed)
  running := hrunning
  resolved := by
    intro seq hseq
    rcases hresolved seq hseq with hold | hnew
    · exact hisolated.resolved seq hold
    · exact hnew

/-- The program counter moves, and perhaps the metrics. -/
theorem settle (hisolated : Isolated scheduler maxSeqLen s)
    (hhistory : s'.history = s.history) (hqueue : s'.queue = s.queue)
    (hsound : s'.pc.Sound s'.kvCache) (hclients : s'.clients = s.clients)
    (hrunning : s'.running = s.running) : Isolated scheduler maxSeqLen s' := by
  apply hisolated.move
  · rw [hhistory]
  · rw [hqueue]
    exact id
  · exact hsound
  · rw [hclients]
    exact fun _ _ hmem ↦ Or.inl hmem
  · rw [hrunning]
    exact hisolated.running
  · rw [hhistory]
    exact fun _ hmem ↦ Or.inl hmem

/-- What an answer adds to the channels. -/
theorem errors_answer {client : ClientId} {message : String}
    (hclients : s'.clients = (s.trySendError client message).clients)
    (hdeserved : Deserved scheduler maxSeqLen s client message) (other : ClientId) (text : String)
    (hmem : .error text ∈ (s'.clients other).sent) :
    .error text ∈ (s.clients other).sent ∨ Deserved scheduler maxSeqLen s other text := by
  rcases error_of_answer hclients hmem with hold | ⟨rfl, rfl⟩
  · exact Or.inl hold
  · exact Or.inr hdeserved

/-- Dropping done sequences of `running`. -/
theorem reap (hisolated : Isolated scheduler maxSeqLen s)
    (hhistory : s'.history = s.reapDoneSequences.history) (hqueue : s'.queue = s.queue)
    (hsound : s'.pc.Sound s'.kvCache) (hclients : s'.clients = s.clients)
    (hrunning : s'.running = s.reapDoneSequences.running) : Isolated scheduler maxSeqLen s' := by
  refine hisolated.move ?_ ?_ hsound ?_ ?_ ?_
  · rw [hhistory]
    rfl
  · rw [hqueue]
    exact id
  · rw [hclients]
    exact fun _ _ hmem ↦ Or.inl hmem
  · rw [hrunning]
    exact fun seq hseq ↦ hisolated.running seq (List.mem_filter.mp hseq).1
  · rw [hhistory]
    intro seq hseq
    rcases List.mem_append.mp hseq with hold | hnew
    · exact Or.inl hold
    · obtain ⟨other, hother, hsame⟩ := List.mem_map.mp hnew
      obtain rfl := Resolved.sequence.inj hsame
      exact Or.inr fun hfailed ↦
        absurd hfailed (hisolated.running other (List.mem_filter.mp hother).1)

/-- A sequence that is cancelled has not failed. -/
theorem running_cancel (hisolated : Isolated scheduler maxSeqLen s) (index : ℕ) :
    ∀ seq ∈ s.running.modify index Sequence.cancel, seq.state ≠ .failed := by
  intro seq hseq
  obtain ⟨other, hother⟩ := List.mem_iff_getElem?.mp hseq
  by_cases heq : index = other
  · subst heq
    rw [List.getElem?_modify_eq] at hother
    obtain ⟨before, hbefore, rfl⟩ := Option.map_eq_some_iff.mp hother
    exact Sequence.cancel_state_ne_failed (hisolated.running before (List.mem_of_getElem? hbefore))
  · rw [List.getElem?_modify_ne _ _ heq] at hother
    exact hisolated.running seq (List.mem_of_getElem? hother)

/-- The candidate is given up by one of the checks. -/
theorem release_cancel (hisolated : Isolated scheduler maxSeqLen s) {seq : Sequence α}
    (hdone : seq.isDone = false) {metrics : SchedulerMetrics} :
    Isolated scheduler maxSeqLen
      { (s.release seq.cancel).goto .admission with metrics := metrics } := by
  refine hisolated.move rfl id trivial (fun _ _ hmem ↦ Or.inl hmem) hisolated.running ?_
  intro other hother
  rcases List.mem_append.mp hother with hold | hnew
  · exact Or.inl hold
  · obtain rfl := Resolved.sequence.inj (List.mem_singleton.mp hnew)
    exact Or.inr fun hfailed ↦ absurd hfailed
      (Sequence.cancel_state_ne_failed (Sequence.state_ne_failed_of_not_done hdone))

/-- A request is dropped, answered or not. -/
theorem dropRequest (hisolated : Isolated scheduler maxSeqLen s) (requests : List (GenerationRequest α))
    (haccepted : s'.history.accepted = s.history.accepted)
    (hresolved : s'.history.resolved = s.history.resolved ++ requests.map .request)
    (hclosed : s'.queue.closed = s.queue.closed) (hsound : s'.pc.Sound s'.kvCache)
    (herrors : ∀ client message, .error message ∈ (s'.clients client).sent →
      .error message ∈ (s.clients client).sent ∨ Deserved scheduler maxSeqLen s client message)
    (hrunning : s'.running = s.running) : Isolated scheduler maxSeqLen s' := by
  refine hisolated.move haccepted ?_ hsound herrors ?_ ?_
  · rw [hclosed]
    exact id
  · rw [hrunning]
    exact hisolated.running
  · intro seq hseq
    rw [hresolved] at hseq
    rcases List.mem_append.mp hseq with hold | hnew
    · exact Or.inl hold
    · obtain ⟨req, -, hsame⟩ := List.mem_map.mp hnew
      cases hsame

end Isolated

section Step

variable {scheduler : Scheduler α} {origin : SlabKvCache (KvTensor α)} {s s' : State α}

/-- In a decode pass no row is rejected. -/
theorem rowsOk_of_isolated (hisolated : Isolated scheduler origin.maxSeqLen s)
    (hfollowing : Following scheduler origin.maxSeqLen s)
    (hslots : Slots scheduler origin s.pc s.running s.kvCache)
    (hshape : scheduler.model.ShapedFor origin) (hpc : s.pc = .forward) :
    ∀ input ∈ s.running.map Sequence.decodeInput, scheduler.model.RowOk s.kvCache input := by
  intro input hinput
  obtain ⟨hposition, hroom⟩ := rowOk_of_forward hfollowing hslots hshape hpc input hinput
  apply hroom
  refine ⟨hposition, ?_⟩
  obtain ⟨seq, hseq, rfl⟩ := List.mem_map.mp hinput
  obtain ⟨hdone, req, hreq, turns, hfollows, -⟩ :=
    exists_follows_of_forward hfollowing hslots hpc hseq
  have hlast : seq.lastToken.toNat < scheduler.model.vocabSize := by
    rw [hfollows.eq_after hdone,
      PrivateState.lastToken_after_lt_iff hfollows.admitted.admissible.prompt_ne]
    exact fun _ ↦ hisolated.ends req hreq hfollows.admitted hfollows.accepted.prompt
  cases hmodel : scheduler.model with
  | gpt2 model =>
      rw [hmodel] at hlast
      exact hlast
  | scripted model => trivial

/-- A decode pass succeeds and gives every sequence its own row. -/
theorem forward_of_isolated (hisolated : Isolated scheduler origin.maxSeqLen s)
    (hfollowing : Following scheduler origin.maxSeqLen s)
    (hslots : Slots scheduler origin s.pc s.running s.kvCache)
    (hshape : scheduler.model.ShapedFor origin) (hpc : s.pc = .forward) :
    ∃ kvCache, forward scheduler s = { s with
      kvCache := kvCache
      pc := .checkDone (.delivering 0 (s.running.map fun seq ↦
        (scheduler.model.decodeRow (s.kvCache.stored seq.kvHandle) seq.decodeInput).1)) } := by
  obtain ⟨kvCache, hrun, -⟩ := SmallTransformer.forward_of_rowsOk _ hslots.wf
    hslots.nodup_decodeInputs hslots.current_decodeInputs
    (rowsOk_of_isolated hisolated hfollowing hslots hshape hpc)
  refine ⟨kvCache, ?_⟩
  unfold forward
  rw [hrun, List.map_map]
  rfl

theorem isolated_abandon {site : Site α} {metrics : SchedulerMetrics}
    (hisolated : Isolated scheduler origin.maxSeqLen s)
    (hcandidate : ∀ seq ∈ site.candidate, seq.isDone = false) :
    Isolated scheduler origin.maxSeqLen { abandon site s with metrics := metrics } := by
  cases site with
  | removing index =>
      exact hisolated.move rfl id trivial (fun _ _ hmem ↦ Or.inl hmem)
        (hisolated.running_cancel index) fun _ hmem ↦ Or.inl hmem
  | delivering index logits =>
      exact hisolated.move rfl id trivial (fun _ _ hmem ↦ Or.inl hmem)
        (hisolated.running_cancel index) fun _ hmem ↦ Or.inl hmem
  | popped req =>
      exact hisolated.dropRequest [req] rfl rfl rfl trivial (fun _ _ hmem ↦ Or.inl hmem) rfl
  | allocated seq => exact hisolated.release_cancel (hcandidate seq rfl)
  | prefilled seq => exact hisolated.release_cancel (hcandidate seq rfl)

theorem isolated_proceed {site : Site α} {client : ClientId}
    (hisolated : Isolated scheduler origin.maxSeqLen s) (hpc : s.pc = .checkClosed site client)
    (hcandidate : ∀ seq ∈ site.candidate, seq.isDone = false) :
    Isolated scheduler origin.maxSeqLen (proceed site s) := by
  cases site with
  | removing index => exact hisolated.settle rfl rfl trivial rfl rfl
  | delivering index logits => exact hisolated.settle rfl rfl trivial rfl rfl
  | allocated seq => exact hisolated.settle rfl rfl trivial rfl rfl
  | popped req =>
      have hsound := hisolated.sound
      rw [hpc] at hsound
      exact hisolated.settle rfl rfl hsound rfl rfl
  | prefilled seq =>
      refine hisolated.move rfl id trivial (fun _ _ hmem ↦ Or.inl hmem) ?_ fun _ hmem ↦ Or.inl hmem
      intro other hother
      rcases List.mem_append.mp hother with hold | hnew
      · exact hisolated.running other hold
      · rw [List.mem_singleton.mp hnew]
        exact Sequence.state_ne_failed_of_not_done (hcandidate seq rfl)

/-- A request that validation accepts is admitted, and one that it refuses gets the error. -/
theorem isolated_admitRequest {req : GenerationRequest α}
    (hisolated : Isolated scheduler origin.maxSeqLen s)
    (hfollowing : Following scheduler origin.maxSeqLen s)
    (hslots : Slots scheduler origin s.pc s.running s.kvCache) (hpc : s.pc = .admitRequest req) :
    Isolated scheduler origin.maxSeqLen (admitRequest scheduler req s) := by
  have hreq : req ∈ s.history.accepted := by
    apply hfollowing.pending
    rw [hpc]
    exact List.mem_singleton_self req
  have hfree : s.kvCache.freeSlots ≠ [] := by
    have hsound := hisolated.sound
    rwa [hpc] at hsound
  have hmaxLen : s.kvCache.maxSeqLen = origin.maxSeqLen := hslots.sameShape.maxSeqLen_eq
  unfold admitRequest
  cases hvalid : validateRequest scheduler s.kvCache req with
  | error message =>
      have hrefused : ¬ Admitted scheduler origin.maxSeqLen req := by
        intro hadmitted
        rw [validateRequest_eq_ok.mpr (hmaxLen ▸ hadmitted)] at hvalid
        cases hvalid
      exact hisolated.dropRequest [req] rfl rfl rfl trivial
        (Isolated.errors_answer rfl (Or.inr ⟨req, hreq, rfl, Or.inl hrefused⟩)) rfl
  | ok _ =>
      have hadmitted := validateRequest_eq_ok.mp hvalid
      obtain ⟨handle, kvCache, hallocate⟩ := SlabKvCache.exists_allocate
        hadmitted.admissible.total_lt hadmitted.total_le_cache hfree
      unfold Sequence.new
      rw [hallocate]
      exact hisolated.settle rfl rfl trivial rfl rfl

/-- A prefill fails for the prompt of its own request only. -/
theorem rejected_of_prefill_error {seq : Sequence α} {err : ModelError}
    (hfollowing : Following scheduler origin.maxSeqLen s)
    (hslots : Slots scheduler origin s.pc s.running s.kvCache)
    (hshape : scheduler.model.ShapedFor origin) (hpc : s.pc = .prefill seq)
    (herr : (scheduler.model.prefill seq.promptTokens seq.kvHandle s.kvCache).1 = .error err) :
    ¬ scheduler.model.AcceptsPrompt seq.promptTokens := by
  intro haccepts
  obtain ⟨req, -, hadmitted, hseq, hcapacity, -⟩ := untouched_of_prefill hfollowing hpc
  have hprompt : seq.promptTokens = req.promptTokens := by rw [hseq]; rfl
  have hcurrent : s.kvCache.IsCurrentHandle seq.kvHandle := hslots.current_candidate (hpc ▸ rfl)
  have hok : scheduler.model.PrefillOk s.kvCache seq.promptTokens seq.kvHandle := by
    apply haccepts.prefillOk (shapedFor_of_sameShape hslots.sameShape hshape)
    rw [hcapacity, hprompt]
    exact (Nat.sub_le _ _).trans (Nat.le_add_right _ _)
  obtain ⟨kvCache, hgood, -⟩ := SmallTransformer.prefill_of_ok hslots.wf hcurrent hok
  rw [hgood] at herr
  cases herr

theorem isolated_prefill {seq : Sequence α} (hisolated : Isolated scheduler origin.maxSeqLen s)
    (hfollowing : Following scheduler origin.maxSeqLen s)
    (hslots : Slots scheduler origin s.pc s.running s.kvCache)
    (hshape : scheduler.model.ShapedFor origin) (hpc : s.pc = .prefill seq) :
    Isolated scheduler origin.maxSeqLen (prefill scheduler seq s) := by
  unfold prefill
  cases hrun : scheduler.model.prefill seq.promptTokens seq.kvHandle s.kvCache with
  | mk result kvCache =>
      cases result with
      | ok _ => exact hisolated.settle rfl rfl trivial rfl rfl
      | error err =>
          have hrejected := rejected_of_prefill_error hfollowing hslots hshape hpc
            (congrArg Prod.fst hrun)
          obtain ⟨req, hreq, -, hseq, -, -⟩ := untouched_of_prefill hfollowing hpc
          have hprompt : seq.promptTokens = req.promptTokens := by rw [hseq]; rfl
          have hclient : req.client = seq.client := by rw [hseq]; rfl
          refine hisolated.move rfl id trivial ?_ hisolated.running ?_
          · exact Isolated.errors_answer rfl
              (Or.inr ⟨req, hreq, hclient, Or.inr (hprompt ▸ hrejected)⟩)
          · intro other hother
            rcases List.mem_append.mp hother with hold | hnew
            · exact Or.inl hold
            · obtain rfl := Resolved.sequence.inj (List.mem_singleton.mp hnew)
              right
              intro _
              rw [seq.fail_eq]
              exact hrejected

/-- The row of a sequence that has not been visited is there, and the sequence does not fail. -/
theorem isolated_sampleToken {index : ℕ} {logits : List (LogitRow α)}
    (hisolated : Isolated scheduler origin.maxSeqLen s)
    (hfollowing : Following scheduler origin.maxSeqLen s)
    (hslots : Slots scheduler origin s.pc s.running s.kvCache)
    (hpc : s.pc = .sampleToken index logits) :
    Isolated scheduler origin.maxSeqLen (sampleToken index logits s) := by
  unfold sampleToken
  cases hseq : s.running[index]? with
  | none => exact hisolated.reap rfl rfl trivial rfl rfl
  | some seq =>
      obtain ⟨hdone, req, turns, hfollows, hrow⟩ :=
        exists_follows_of_sampleToken hfollowing hslots hpc hseq
      obtain ⟨tokens, stepped, hadvance⟩ := (hfollows.serves hdone).exists_advance
        (scheduler.model.decodeRow
          (PrivateState.after scheduler.model req seq.kvHandle turns).store
          (PrivateState.after scheduler.model req seq.kvHandle turns).seq.decodeInput).1
      have hstepped : stepped.state ≠ .failed := by
        rcases Sequence.advance_state hadvance
          ((hfollows.serves hdone).finishReason_of_not_done hdone) with ⟨hstate, -⟩ | ⟨hstate, -⟩
        · rw [hstate]
          exact SequenceState.noConfusion
        · rw [hstate]
          exact Sequence.state_ne_failed_of_not_done hdone
      have hrunning : ∀ delivered : Bool, ∀ other ∈
          s.running.set index (if delivered then stepped else stepped.cancel),
          other.state ≠ .failed := by
        intro delivered other hother
        rcases List.mem_or_eq_of_mem_set hother with hold | rfl
        · exact hisolated.running other hold
        · cases delivered with
          | true => exact hstepped
          | false => exact Sequence.cancel_state_ne_failed hstepped
      dsimp only
      rw [logitRow_eq_ok.mpr hrow]
      dsimp only
      rw [hadvance]
      dsimp only
      cases hdelivered : (s.clients seq.client).tryReserveMany
          (updateItems tokens stepped.finishReason).length with
      | true =>
          refine hisolated.move rfl id ?_ (fun _ _ hmem ↦ Or.inl hmem) (hrunning true)
            fun _ hmem ↦ Or.inl hmem
          exact error_notMem_updateItems _ _
      | false =>
          exact hisolated.move rfl id trivial (fun _ _ hmem ↦ Or.inl hmem) (hrunning false)
            fun _ hmem ↦ Or.inl hmem

theorem isolated_responseWanted {site : Site α} {client : ClientId}
    (hisolated : Isolated scheduler origin.maxSeqLen s) (hpc : s.pc = .checkDone site) :
    Isolated scheduler origin.maxSeqLen (s.goto (.checkClosed site client)) := by
  have hsound := hisolated.sound
  rw [hpc] at hsound
  refine hisolated.settle rfl rfl ?_ rfl rfl
  cases site with
  | popped req => exact hsound
  | removing _ | allocated _ | prefilled _ | delivering _ _ => trivial

/-- While the scheduler may admit, a slot is free for the request that it pops. -/
theorem isolated_tryPop (late : List ClientId) (hisolated : Isolated scheduler origin.maxSeqLen s)
    (hslots : Slots scheduler origin s.pc s.running s.kvCache)
    (hroom : mayAdmit scheduler s = true) : Isolated scheduler origin.maxSeqLen (tryPop late s) := by
  have hfree : s.kvCache.freeSlots ≠ [] := by
    apply hslots.wf.freeSlots_ne
    unfold mayAdmit at hroom
    rw [Bool.and_eq_true, decide_eq_true_eq, decide_eq_true_eq] at hroom
    exact hroom.2
  unfold tryPop
  rcases RequestQueue.tryPop_cases (s.isOpen late) s.queue with
    ⟨hpop, -⟩ | ⟨popped, rest, hpop, -⟩
  · rw [hpop]
    exact hisolated.dropRequest _ rfl rfl rfl trivial (fun _ _ hmem ↦ Or.inl hmem) rfl
  · rw [hpop]
    exact hisolated.dropRequest _ rfl rfl rfl hfree (fun _ _ hmem ↦ Or.inl hmem) rfl

theorem isolated_evictAt {index : ℕ} (hisolated : Isolated scheduler origin.maxSeqLen s)
    (hfollowing : Following scheduler origin.maxSeqLen s)
    (hslots : Slots scheduler origin s.pc s.running s.kvCache) (hpc : s.pc = .evict index) :
    Isolated scheduler origin.maxSeqLen (evictAt scheduler index s) := by
  cases hseq : s.running[index]? with
  | some seq =>
      rw [evictAt_of_following hfollowing hslots hpc hseq]
      exact hisolated.settle rfl rfl trivial rfl rfl
  | none =>
      unfold evictAt
      rw [hseq]
      dsimp only
      split
      · exact hisolated.reap rfl rfl trivial rfl rfl
      · exact hisolated.reap rfl rfl trivial rfl rfl

/-- What is sent with an update is no error. -/
theorem isolated_sendItems {index : ℕ} {logits : List (LogitRow α)} {items : List StreamItem}
    (hisolated : Isolated scheduler origin.maxSeqLen s) (hpc : s.pc = .sendItems index logits items) :
    Isolated scheduler origin.maxSeqLen (sendItems index logits items s) := by
  have hitems : ∀ message, .error message ∉ items := by
    have hsound := hisolated.sound
    rwa [hpc] at hsound
  unfold sendItems
  split
  · rename_i seq item rest _
    refine hisolated.move rfl id ?_ ?_ hisolated.running fun _ hmem ↦ Or.inl hmem
    · exact fun message hmem ↦ hitems message (List.mem_cons_of_mem item hmem)
    · intro client message hmem
      left
      apply error_of_send rfl _ hmem
      rintro rfl
      exact hitems message List.mem_cons_self
  · exact hisolated.settle rfl rfl trivial rfl rfl

/-- Once the queue is closed, everybody who still waits hears of the shutdown. -/
theorem isolated_answerQueued {drained : List (GenerationRequest α)}
    (hisolated : Isolated scheduler origin.maxSeqLen s) (hclosed : s.queue.closed = true) :
    Isolated scheduler origin.maxSeqLen (answerQueued drained s) := by
  cases drained with
  | nil => exact hisolated.settle rfl rfl trivial rfl rfl
  | cons req rest =>
      exact hisolated.dropRequest [req] rfl rfl rfl trivial
        (Isolated.errors_answer rfl (Or.inl ⟨rfl, hclosed⟩)) rfl

theorem isolated_answerRunning (hisolated : Isolated scheduler origin.maxSeqLen s)
    (hclosed : s.queue.closed = true) :
    Isolated scheduler origin.maxSeqLen (answerRunning s) := by
  unfold answerRunning
  cases hrunning : s.running with
  | nil => exact hisolated.settle rfl rfl trivial rfl hrunning.symm
  | cons seq rest =>
      refine hisolated.move rfl id trivial
        (Isolated.errors_answer rfl (Or.inl ⟨rfl, hclosed⟩)) ?_ ?_
      · intro other hother
        apply hisolated.running
        rw [hrunning]
        exact List.mem_cons_of_mem seq hother
      · intro other hother
        rcases List.mem_append.mp hother with hold | hnew
        · exact Or.inl hold
        · obtain rfl := Resolved.sequence.inj (List.mem_singleton.mp hnew)
          right
          intro hfailed
          refine absurd hfailed (hisolated.running other ?_)
          rw [hrunning]
          exact List.mem_cons_self

/-- **No step of the scheduler makes one request pay for another.** -/
theorem isolated_schedStep {late : List ClientId} (hisolated : Isolated scheduler origin.maxSeqLen s)
    (hfollowing : Following scheduler origin.maxSeqLen s)
    (hslots : Slots scheduler origin s.pc s.running s.kvCache)
    (hplaced : Placed s.pc s.running s.queue) (hshape : scheduler.model.ShapedFor origin)
    (hstep : SchedStep scheduler late s s') : Isolated scheduler origin.maxSeqLen s' := by
  have hcandidate : ∀ site : Site α, s.pc.candidate = site.candidate →
      ∀ seq ∈ site.candidate, seq.isDone = false := by
    intro site hsame
    rw [← hsame]
    exact hslots.candidate_notDone
  cases hstep with
  | stop _ _ => exact hisolated.settle rfl rfl trivial rfl rfl
  | enter _ => exact hisolated.settle rfl rfl trivial rfl rfl
  | @endLoop site _ _ => cases site <;> exact hisolated.reap rfl rfl trivial rfl rfl
  | @responseDone site _ hpc _ _ =>
      exact isolated_abandon hisolated (hcandidate site (congrArg Pc.candidate hpc))
  | responseWanted hpc _ _ => exact isolated_responseWanted hisolated hpc
  | @closed site client hpc _ =>
      have hcounted : Isolated scheduler origin.maxSeqLen (s.recordCancelled [client]) :=
        { hisolated with }
      exact isolated_abandon hcounted (hcandidate site (congrArg Pc.candidate hpc))
  | @stillOpen site _ hpc _ =>
      exact isolated_proceed hisolated hpc (hcandidate site (congrArg Pc.candidate hpc))
  | full _ => exact hisolated.settle rfl rfl trivial rfl rfl
  | tryPop _ hroom => exact isolated_tryPop late hisolated hslots hroom
  | admitRequest hpc => exact isolated_admitRequest hisolated hfollowing hslots hpc
  | prefill hpc => exact isolated_prefill hisolated hfollowing hslots hshape hpc
  | evict hpc => exact isolated_evictAt hisolated hfollowing hslots hpc
  | park _ _ => exact hisolated.settle rfl rfl trivial rfl rfl
  | resume _ => exact hisolated.settle rfl rfl trivial rfl rfl
  | wake _ _ => exact hisolated.settle rfl rfl trivial rfl rfl
  | forward hpc =>
      obtain ⟨kvCache, hforward⟩ := forward_of_isolated hisolated hfollowing hslots hshape hpc
      rw [hforward]
      exact hisolated.settle rfl rfl trivial rfl rfl
  | failBatch hpc =>
      have hsound := hisolated.sound
      rw [hpc] at hsound
      exact hsound.elim
  | sampleToken hpc => exact isolated_sampleToken hisolated hfollowing hslots hpc
  | sendItems hpc => exact isolated_sendItems hisolated hpc
  | closeQueue _ =>
      exact hisolated.move rfl (fun _ ↦ rfl) trivial (fun _ _ hmem ↦ Or.inl hmem) hisolated.running
        fun _ hmem ↦ Or.inl hmem
  | answerQueued hpc =>
      rw [hpc] at hplaced
      exact isolated_answerQueued hisolated hplaced.1
  | answerRunning hpc =>
      rw [hpc] at hplaced
      exact isolated_answerRunning hisolated hplaced.1

/-- Nor does anybody else, as long as no request ends outside of the vocabulary. -/
theorem isolated_step {action : Action α} (hisolated : Isolated scheduler origin.maxSeqLen s)
    (hfollowing : Following scheduler origin.maxSeqLen s)
    (hslots : Slots scheduler origin s.pc s.running s.kvCache)
    (hplaced : Placed s.pc s.running s.queue) (hshape : scheduler.model.ShapedFor origin)
    (hends : EndsAccepted scheduler s action) (hstep : step scheduler action s = some s') :
    Isolated scheduler origin.maxSeqLen s' := by
  cases step_cases hstep with
  | sched hsched => exact isolated_schedStep hisolated hfollowing hslots hplaced hshape hsched
  | schedShutdown _ _ => exact hisolated.settle rfl rfl trivial rfl rfl
  | refuse _ _ =>
      exact hisolated.dropRequest _ rfl rfl rfl hisolated.sound (fun _ _ hmem ↦ Or.inl hmem) rfl
  | notify _ => exact hisolated.settle rfl rfl hisolated.sound rfl rfl
  | shutdown => exact hisolated.settle rfl rfl hisolated.sound rfl rfl
  | @accept req late _ _ _ =>
      have hpruned : Isolated scheduler origin.maxSeqLen (s.prune (s.queue.pruned (s.isOpen late))
          ((s.queue.retainOpen (s.isOpen late)).push req)) :=
        hisolated.dropRequest _ rfl rfl rfl hisolated.sound (fun _ _ hmem ↦ Or.inl hmem) rfl
      have hmaxLen : s.kvCache.maxSeqLen = origin.maxSeqLen := hslots.sameShape.maxSeqLen_eq
      constructor
      case ends =>
        intro other hother hadmitted
        rcases List.mem_append.mp hother with hold | hnew
        · exact hisolated.ends other hold hadmitted
        · rw [List.mem_singleton.mp hnew] at hadmitted ⊢
          exact hends (validateRequest_eq_ok.mpr (hmaxLen ▸ hadmitted))
      case sound => exact hisolated.sound
      case running => exact hisolated.running
      case resolved => exact hpruned.resolved
      case errors =>
        intro client message hmem
        refine (hisolated.errors client message hmem).imp_right ?_
        rintro ⟨other, hother, hfault⟩
        exact ⟨other, List.mem_append_left _ hother, hfault⟩
  | @client other action after hact =>
      refine hisolated.move rfl id hisolated.sound ?_ hisolated.running fun _ hmem ↦ Or.inl hmem
      intro client message hmem
      left
      rwa [← sent_of_act hact client]

/-- Nobody suffers from a fault of somebody else in a run whose requests all end in the vocabulary. -/
theorem isolated_reachable {maxSeqs maxSeqLen maxDepth : ℕ} {capacity : ClientId → ℕ}
    (hreach : Reaches scheduler (EndsAccepted scheduler) (init (.new maxSeqs maxSeqLen
      scheduler.model.kvShape.1 scheduler.model.kvShape.2.1 scheduler.model.kvShape.2.2) maxDepth
        capacity) s) : Isolated scheduler maxSeqLen s := by
  refine hreach.invariant ?_ ?_
  · intro before after action hbefore hisolated hends hnext
    exact isolated_step hisolated (following_reachable hbefore) (slots_reachable hbefore)
      (placed_reachable hbefore) (scheduler.model.shapedFor_new maxSeqs maxSeqLen) hends hnext
  · constructor
    case ends => exact fun _ hreq ↦ nomatch hreq
    case sound => trivial
    case errors => exact fun _ _ hmem ↦ nomatch hmem
    case running => exact fun _ hseq ↦ nomatch hseq
    case resolved => exact fun _ hseq ↦ nomatch hseq

/-- A rejected prompt is answered and gives its slot back; the others keep theirs, and what is in
them. -/
theorem prefill_of_rejected {seq : Sequence α}
    (hslots : Slots scheduler origin s.pc s.running s.kvCache) (hpc : s.pc = .prefill seq)
    (hrejected : ¬ scheduler.model.AcceptsPrompt seq.promptTokens) :
    (∃ message, (prefill scheduler seq s).clients = (s.trySendError seq.client message).clients) ∧
      (prefill scheduler seq s).running = s.running ∧
      (∀ other ∈ s.running, (prefill scheduler seq s).kvCache.stored other.kvHandle =
        s.kvCache.stored other.kvHandle) ∧
      ∀ handle, (prefill scheduler seq s).kvCache.IsCurrentHandle handle ↔
        handle ∈ s.running.map Sequence.kvHandle := by
  have hcandidate : s.pc.candidate = some seq := by
    rw [hpc]
    rfl
  have hcurrent := hslots.current_candidate hcandidate
  have hconfined := scheduler.model.confined_prefill seq.promptTokens seq.kvHandle s.kvCache hslots.wf
  have hafter := slots_prefill (hpc ▸ hslots)
  cases hrun : scheduler.model.prefill seq.promptTokens seq.kvHandle s.kvCache with
  | mk result kvCache =>
      cases result with
      | ok _ => exact absurd (SmallTransformer.prefill_eq_ok hslots.wf hcurrent hrun).1 hrejected
      | error err =>
          rw [hrun] at hconfined
          unfold prefill at hafter ⊢
          rw [hrun] at hafter ⊢
          refine ⟨⟨_, rfl⟩, rfl, ?_, ?_⟩
          · intro other hother
            have hne := hslots.candidate_ne hcandidate hother
            change (kvCache.free seq.fail.kvHandle).stored other.kvHandle = _
            funext layer
            rw [seq.fail_kvHandle, SlabKvCache.stored_free, if_neg hne,
              hconfined.stored_eq _ fun hmem ↦ hne (List.mem_singleton.mp hmem)]
          · intro handle
            rw [hafter.current_iff]
            change handle ∈ (s.running ++ []).map Sequence.kvHandle ↔ _
            rw [List.append_nil]

/-- A decode pass fails for everybody exactly when a sequence that has not generated anything comes
from a prompt that ends outside of the vocabulary. -/
theorem forward_fails_iff {model : Gpt2Model α} (hmodel : scheduler.model = .gpt2 model)
    (hfollowing : Following scheduler origin.maxSeqLen s)
    (hslots : Slots scheduler origin s.pc s.running s.kvCache)
    (hshape : scheduler.model.ShapedFor origin) (hpc : s.pc = .forward) :
    (∃ message, (forward scheduler s).pc = .failBatch 0 message) ↔
      ∃ seq ∈ s.running, seq.generatedTokens = [] ∧
        ¬ scheduler.model.EndsInVocab seq.promptTokens := by
  -- A row is accepted when its token is in the vocabulary, and generated tokens are.
  have hrow : ∀ seq ∈ s.running, scheduler.model.RowOk s.kvCache seq.decodeInput ↔
      (seq.generatedTokens = [] → scheduler.model.EndsInVocab seq.promptTokens) := by
    intro seq hseq
    obtain ⟨hposition, hroom⟩ := rowOk_of_forward hfollowing hslots hshape hpc seq.decodeInput
      (List.mem_map_of_mem hseq)
    obtain ⟨hdone, req, -, turns, hfollows, -⟩ :=
      exists_follows_of_forward hfollowing hslots hpc hseq
    have hafter := hfollows.eq_after hdone
    have hprompt : seq.promptTokens = req.promptTokens := by
      rw [hafter]
      exact (PrivateState.serves_after turns).promptTokens_eq
    have htoken : seq.lastToken.toNat < scheduler.model.vocabSize ↔
        (seq.generatedTokens = [] → scheduler.model.EndsInVocab seq.promptTokens) := by
      rw [hprompt, hafter]
      exact PrivateState.lastToken_after_lt_iff hfollows.admitted.admissible.prompt_ne turns
    have haccepts : scheduler.model.AcceptsInput seq.decodeInput ↔
        seq.lastToken.toNat < scheduler.model.vocabSize := by
      unfold SmallTransformer.AcceptsInput
      rw [hmodel]
      exact and_iff_right (by rwa [hmodel] at hposition)
    rw [← htoken, ← haccepts]
    exact ⟨fun hok ↦ hok.accepts, hroom⟩
  constructor
  · rintro ⟨message, hfailed⟩
    by_contra hnone
    push Not at hnone
    have hok : ∀ input ∈ s.running.map Sequence.decodeInput,
        scheduler.model.RowOk s.kvCache input := by
      intro input hinput
      obtain ⟨seq, hseq, rfl⟩ := List.mem_map.mp hinput
      exact (hrow seq hseq).mpr (hnone seq hseq)
    obtain ⟨kvCache, hrun, -⟩ := SmallTransformer.forward_of_rowsOk _ hslots.wf
      hslots.nodup_decodeInputs hslots.current_decodeInputs hok
    unfold forward at hfailed
    rw [hrun] at hfailed
    cases hfailed
  · rintro ⟨seq, hseq, hnew, houtside⟩
    obtain ⟨err, herr⟩ := SmallTransformer.forward_of_not_rowsOk _ hslots.wf
      hslots.nodup_decodeInputs hslots.current_decodeInputs
      ⟨seq.decodeInput, List.mem_map_of_mem hseq,
        fun hok ↦ houtside ((hrow seq hseq).mp hok hnew)⟩
    unfold forward
    cases hrun : scheduler.model.forward (s.running.map Sequence.decodeInput) s.kvCache with
    | mk result kvCache =>
        rw [hrun] at herr
        obtain rfl : result = .error err := herr
        exact ⟨_, rfl⟩

end Step

/-- **Faults stay with the requests that have them**, in every run with the GPT-2 backend in which no
request that validation and its own prefill let through ends outside of the vocabulary. An error goes
to a request that was refused, to one whose own prompt was rejected, or to everybody at shutdown; no
sequence fails for another reason; every running sequence is some number of turns into its private
run; a rejected prompt is answered and gives back its own slot only; and every decode pass gives every
sequence its own row. Whatever is submitted, a pass fails exactly when it includes a sequence whose
prompt ends outside of the vocabulary and which has not generated anything. -/
theorem faults_isolated (scheduler : Scheduler α) (model : Gpt2Model α)
    (hmodel : scheduler.model = .gpt2 model) (maxSeqs maxSeqLen maxDepth : ℕ)
    (capacity : ClientId → ℕ) :
    (∀ s, Reaches scheduler (EndsAccepted scheduler) (init (.new maxSeqs maxSeqLen
        scheduler.model.kvShape.1 scheduler.model.kvShape.2.1 scheduler.model.kvShape.2.2) maxDepth
        capacity) s →
      (∀ client message, .error message ∈ (s.clients client).sent →
        message = shutdownMessage ∧ s.queue.closed = true ∨
          ∃ req ∈ s.history.accepted, req.client = client ∧
            (validateRequest scheduler s.kvCache req ≠ .ok () ∨
              ¬ scheduler.model.AcceptsPrompt req.promptTokens)) ∧
      (∀ seq, s.Held seq → seq.state = .failed →
        ¬ scheduler.model.AcceptsPrompt seq.promptTokens) ∧
      (∀ seq ∈ s.running, seq.isDone = false →
        ∃ req ∈ s.history.accepted, req.client = seq.client ∧
          ∃ turns, seq = (PrivateState.after scheduler.model req seq.kvHandle turns).seq) ∧
      (∀ seq, s.pc = .prefill seq → ¬ scheduler.model.AcceptsPrompt seq.promptTokens →
        (∃ message,
          (prefill scheduler seq s).clients = (s.trySendError seq.client message).clients) ∧
        (prefill scheduler seq s).running = s.running ∧
        (∀ other ∈ s.running, (prefill scheduler seq s).kvCache.stored other.kvHandle =
          s.kvCache.stored other.kvHandle) ∧
        ∀ handle, (prefill scheduler seq s).kvCache.IsCurrentHandle handle ↔
          handle ∈ s.running.map Sequence.kvHandle) ∧
      (s.pc = .forward → ∃ kvCache, forward scheduler s = { s with
        kvCache := kvCache
        pc := .checkDone (.delivering 0 (s.running.map fun seq ↦
          (scheduler.model.decodeRow (s.kvCache.stored seq.kvHandle) seq.decodeInput).1)) })) ∧
    ∀ s, Reaches scheduler Anything (init (.new maxSeqs maxSeqLen scheduler.model.kvShape.1
        scheduler.model.kvShape.2.1 scheduler.model.kvShape.2.2) maxDepth capacity) s →
      s.pc = .forward →
        ((∃ message, (forward scheduler s).pc = .failBatch 0 message) ↔
          ∃ seq ∈ s.running, seq.generatedTokens = [] ∧
            ¬ scheduler.model.EndsInVocab seq.promptTokens) := by
  have hshape := scheduler.model.shapedFor_new maxSeqs maxSeqLen
  refine ⟨fun s hreach ↦ ?_, fun s hreach hpc ↦ forward_fails_iff hmodel
    (following_reachable hreach) (slots_reachable hreach) hshape hpc⟩
  have hfollowing := following_reachable hreach
  have hslots := slots_reachable hreach
  have hisolated := isolated_reachable hreach
  have hmaxLen : s.kvCache.maxSeqLen = maxSeqLen := hslots.sameShape.maxSeqLen_eq
  refine ⟨?_, ?_, ?_, fun seq hpc hrejected ↦ prefill_of_rejected hslots hpc hrejected,
    forward_of_isolated hisolated hfollowing hslots hshape⟩
  · intro client message hmem
    refine (hisolated.errors client message hmem).imp_right ?_
    rintro ⟨req, hreq, hclient, hfault⟩
    refine ⟨req, hreq, hclient, hfault.imp_left fun hrefused hvalid ↦ hrefused ?_⟩
    rw [← hmaxLen]
    exact validateRequest_eq_ok.mp hvalid
  · rintro seq (hrunning | hdropped) hfailed
    · exact absurd hfailed (hisolated.running seq hrunning)
    · exact hisolated.resolved seq hdropped hfailed
  · intro seq hseq hdone
    obtain ⟨index, hindex⟩ := List.mem_iff_getElem?.mp hseq
    obtain ⟨req, hreq, turns, hfollows, -⟩ := hfollowing.running index seq hindex
    exact ⟨req, hreq, hfollows.client_eq.symm, turns, hfollows.eq_after hdone⟩

/-- No submitted request ends outside of the vocabulary. -/
def EndsKnown (scheduler : Scheduler α) (_ : State α) : Action α → Prop
  | .submit req _ => scheduler.model.EndsInVocab req.promptTokens
  | .sched _ | .schedShutdown | .notify | .client _ _ | .shutdown => True

instance (model : SmallTransformer α) (promptTokens : List Token) :
    Decidable (model.EndsInVocab promptTokens) :=
  Option.decidableForallMem promptTokens.getLast?

instance (scheduler : Scheduler α) (s : State α) (action : Action α) :
    Decidable (EndsKnown scheduler s action) :=
  match action with
  | .submit _ _ => inferInstanceAs (Decidable (scheduler.model.EndsInVocab _))
  | .sched _ | .schedShutdown | .notify | .client _ _ | .shutdown => .isTrue trivial

/-- Two requests are admitted, and the second one has the given prompt. -/
def neighbourActions (promptTokens : List Token) : List (Action ℚ) :=
  [.submit ⟨"a", [1], tinyConfig, 0, 0, 0⟩ [],
    .submit ⟨"b", promptTokens, tinyConfig, 1, 0, 0⟩ []] ++ List.replicate 26 (.sched [])

/-- The first decode pass includes a prompt of one token, which is outside of the vocabulary. -/
def tinyShared : State ℚ :=
  (Transition.run (step tinyGpt2Scheduler) Anything (neighbourActions [7]) tinyGpt2Start).getD
    tinyGpt2Start

/-- The neighbour's prefill rejects its first token. -/
def tinyRejected : State ℚ :=
  (Transition.run (step tinyGpt2Scheduler) (EndsKnown tinyGpt2Scheduler) (neighbourActions [7, 1])
    tinyGpt2Start).getD tinyGpt2Start

/-- A request can fail for the prompt of its neighbour, although both have passed validation. -/
theorem healthy_request_failed :
    Reaches tinyGpt2Scheduler Anything tinyGpt2Start tinyShared ∧
      (tinyShared.history.accepted.map fun req ↦ (req.client, req.promptTokens)) =
        [(0, [1]), (1, [7])] ∧
      (∀ req ∈ tinyShared.history.accepted,
        validateRequest tinyGpt2Scheduler tinyShared.kvCache req = .ok ()) ∧
      tinyShared.queue.closed = false ∧
      (tinyShared.clients 0).sent =
        [.error "decode batch failed: index 7 is out of range for a table of 2"] ∧
      (tinyShared.running.map fun seq ↦ (seq.client, seq.state)) = [(0, .failed), (1, .running)] :=
  ⟨Transition.reaches_getD_run (by decide +kernel) tinyGpt2Start, by decide +kernel,
    by decide +kernel, by decide +kernel, by decide +kernel, by decide +kernel⟩

theorem faults_isolated_tinyRejected :
    (tinyRejected.clients 0).sent ≠ [] ∧ (tinyRejected.clients 1).sent ≠ [] ∧
      ∀ message, .error message ∉ (tinyRejected.clients 0).sent := by
  have hreach : Reaches tinyGpt2Scheduler (EndsAccepted tinyGpt2Scheduler) tinyGpt2Start
      tinyRejected := by
    apply (Transition.reaches_getD_run (by decide +kernel) tinyGpt2Start).mono
    intro s action hends
    cases action with
    | submit req late => exact fun _ _ ↦ hends
    | _ => trivial
  refine ⟨by decide +kernel, by decide +kernel, fun message hmem ↦ ?_⟩
  have herrors := ((faults_isolated tinyGpt2Scheduler tinyGpt2 rfl 2 8 4 (fun _ ↦ 5)).1
    tinyRejected hreach).1 0 message hmem
  have hhealthy : ∀ req ∈ tinyRejected.history.accepted, req.client = 0 →
      validateRequest tinyGpt2Scheduler tinyRejected.kvCache req = .ok () ∧
        req.promptTokens = [1] := by decide +kernel
  rcases herrors with ⟨-, hclosed⟩ | ⟨req, hreq, hclient, hfault⟩
  · exact absurd hclosed (by decide +kernel)
  · obtain ⟨hvalid, hprompt⟩ := hhealthy req hreq hclient
    rcases hfault with hrefused | hrejected
    · exact hrefused hvalid
    · rw [hprompt] at hrejected
      exact hrejected ⟨by decide, Or.inl rfl⟩

end Scheduler

end HotBatch
