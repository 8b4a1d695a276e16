import HotBatch.Scheduler.Stopping

/-!
# A queue of admissible requests

When every request that enters the queue would be admitted, over a cache of the model's shape that has
a slot for every running sequence, the scheduler never speaks of a limit: validation, allocation and
eviction pass everything, no row of logits is missing, and what a channel carries besides tokens is
the shutdown or the failure of the tensor library in a pass of the run.
-/

namespace HotBatch

namespace Scheduler

/-- What an error on a channel can be about that has nothing to do with a limit, in a run that has come
to `s`: the shutdown, or a pass of the client in which the tensor library failed. -/
inductive ErrorCause {α : Type} [Kernels α] (scheduler : Scheduler α)
    (allowed : State α → Action α → Prop) (start s : State α) (client : ClientId) : String → Prop
  | shutdown (hshutdown : s.shutdown = true) :
      ErrorCause scheduler allowed start s client shutdownMessage
  | prefill {before : State α} {seq : Sequence α} {text : String}
      (hbefore : Reaches scheduler allowed start before) (hpc : before.pc = .prefill seq)
      (hclient : seq.client = client)
      (herr : (scheduler.model.prefill seq.promptTokens seq.kvHandle before.kvCache).1 =
        .error (.tensor text))
      (hafter : Reaches scheduler allowed (prefill scheduler seq before) s) :
      ErrorCause scheduler allowed start s client
        s!"failed to prefill request {seq.id}: {(ModelError.tensor text).message}"
  | batch {before : State α} {seq : Sequence α} {text : String}
      (hbefore : Reaches scheduler allowed start before) (hpc : before.pc = .forward)
      (hseq : seq ∈ before.running) (hclient : seq.client = client)
      (herr : (scheduler.model.forward (before.running.map Sequence.decodeInput)
        before.kvCache).1 = .error (.tensor text))
      (hafter : Reaches scheduler allowed (forward scheduler before) s) :
      ErrorCause scheduler allowed start s client
        s!"decode batch failed: {(ModelError.tensor text).message}"

variable {α : Type}

/-- What the program counter is about to send to somebody in `running`. -/
def Pc.Carries (cause : ClientId → String → Prop) (running : List (Sequence α)) : Pc α → Prop
  | failBatch _ message => ∀ seq ∈ running, cause seq.client message
  | sendItems _ _ items => ∀ message, .error message ∉ items
  | _ => True

/-- Everything that waits would be admitted, and every error on a channel has a cause. -/
structure Spared (scheduler : Scheduler α) (maxSeqLen : ℕ) (cause : ClientId → String → Prop)
    (s : State α) : Prop where
  queued : ∀ req ∈ s.queue.requests, Admitted scheduler maxSeqLen req
  pending : ∀ req ∈ s.pc.pending, Admitted scheduler maxSeqLen req
  sent : ∀ client message, .error message ∈ (s.clients client).sent → cause client message
  carries : s.pc.Carries cause s.running

section Step

variable {scheduler : Scheduler α} {maxSeqLen : ℕ} {origin : SlabKvCache (KvTensor α)}
  {cause : ClientId → String → Prop} {s s' : State α}

theorem Spared.imp {cause' : ClientId → String → Prop} (hspared : Spared scheduler maxSeqLen cause s)
    (himp : ∀ client message, cause client message → cause' client message) :
    Spared scheduler maxSeqLen cause' s where
  queued := hspared.queued
  pending := hspared.pending
  sent client message hmem := himp client message (hspared.sent client message hmem)
  carries := by
    have hcarries := hspared.carries
    cases hpc : s.pc with
    | failBatch index message =>
        rw [hpc] at hcarries
        exact fun seq hseq ↦ himp seq.client message (hcarries seq hseq)
    | sendItems index logits items =>
        rw [hpc] at hcarries
        exact hcarries
    | _ => trivial

theorem Spared.update (hspared : Spared scheduler maxSeqLen cause s)
    (hqueue : s'.queue.requests ⊆ s.queue.requests)
    (hpending : ∀ req ∈ s'.pc.pending, req ∈ s.pc.pending ∨ req ∈ s.queue.requests)
    (hclients : ∀ client message, .error message ∈ (s'.clients client).sent →
      .error message ∈ (s.clients client).sent ∨ cause client message)
    (hcarries : s'.pc.Carries cause s'.running) : Spared scheduler maxSeqLen cause s' where
  queued req hreq := hspared.queued req (hqueue hreq)
  pending req hreq := (hpending req hreq).elim (hspared.pending req) (hspared.queued req)
  sent client message hmem := (hclients client message hmem).elim (hspared.sent client message) id
  carries := hcarries

/-- A step that sends nothing. -/
theorem Spared.move (hspared : Spared scheduler maxSeqLen cause s) (hqueue : s'.queue = s.queue)
    (hclients : s'.clients = s.clients) (hpending : s'.pc.pending ⊆ s.pc.pending)
    (hcarries : s'.pc.Carries cause s'.running) : Spared scheduler maxSeqLen cause s' := by
  apply hspared.update _ _ _ hcarries
  · rw [hqueue]
    exact List.Subset.refl _
  · exact fun req hreq ↦ Or.inl (hpending hreq)
  · rw [hclients]
    exact fun _ _ ↦ Or.inl

/-- A step that sends one error. -/
theorem Spared.answer (hspared : Spared scheduler maxSeqLen cause s) {client : ClientId}
    {message : String} (hcause : cause client message) (hqueue : s'.queue = s.queue)
    (hclients : s'.clients = (s.trySendError client message).clients)
    (hpending : s'.pc.pending ⊆ s.pc.pending) (hcarries : s'.pc.Carries cause s'.running) :
    Spared scheduler maxSeqLen cause s' := by
  apply hspared.update _ _ _ hcarries
  · rw [hqueue]
    exact List.Subset.refl _
  · exact fun req hreq ↦ Or.inl (hpending hreq)
  · intro other text hmem
    rcases error_of_answer hclients hmem with hold | ⟨rfl, rfl⟩
    · exact Or.inl hold
    · exact Or.inr hcause

theorem spared_abandon {site : Site α} (hspared : Spared scheduler maxSeqLen cause s) :
    Spared scheduler maxSeqLen cause (abandon site s) := by
  cases site <;> exact hspared.move rfl rfl (List.nil_subset _) trivial

theorem spared_proceed {site : Site α} {reader : ClientId} (hspared : Spared scheduler maxSeqLen cause s)
    (hpc : s.pc = .checkClosed site reader) : Spared scheduler maxSeqLen cause (proceed site s) := by
  cases site with
  | popped req =>
      refine hspared.move rfl rfl ?_ trivial
      rw [hpc]
      exact List.Subset.refl [req]
  | removing _ | allocated _ | prefilled _ | delivering _ _ =>
      exact hspared.move rfl rfl (List.nil_subset _) trivial

theorem spared_endLoop (site : Site α) (hspared : Spared scheduler maxSeqLen cause s) :
    Spared scheduler maxSeqLen cause (endLoop site s) := by
  cases site <;> exact hspared.move rfl rfl (List.nil_subset _) trivial

theorem spared_tryPop (late : List ClientId) (hspared : Spared scheduler maxSeqLen cause s) :
    Spared scheduler maxSeqLen cause (tryPop late s) := by
  unfold tryPop
  rcases RequestQueue.tryPop_cases (s.isOpen late) s.queue with
    ⟨hpop, -⟩ | ⟨req, rest, hpop, hperm⟩
  · rw [hpop]
    exact hspared.update (s.queue.retainOpen_subset _) (fun _ hreq ↦ nomatch hreq)
      (fun _ _ ↦ Or.inl) trivial
  · rw [hpop]
    have hmem : ∀ other ∈ req :: rest, other ∈ s.queue.requests := fun other hother ↦
      s.queue.retainOpen_subset _ (hperm.subset hother)
    refine hspared.update ?_ ?_ (fun _ _ ↦ Or.inl) trivial
    · exact fun other hother ↦ hmem other (List.mem_cons_of_mem _ hother)
    · intro other hother
      obtain rfl := List.mem_singleton.mp hother
      exact Or.inr (hmem other List.mem_cons_self)

/-- A slot is free for the request that is being admitted. -/
theorem freeSlots_of_admitRequest [Zero α] {req : GenerationRequest α}
    (hslots : Slots scheduler origin s.pc s.running s.kvCache)
    (hseqs : scheduler.config.maxRunningSeqs ≤ origin.maxSeqs) (hpc : s.pc = .admitRequest req) :
    s.kvCache.freeSlots ≠ [] := by
  apply hslots.wf.freeSlots_ne
  have hroom := hslots.length_le
  rw [hpc] at hroom
  calc s.kvCache.allocatedSlots
      = s.running.length := allocatedSlots_eq hslots (by rw [hpc]; rfl)
    _ < s.running.length + 1 := Nat.lt_succ_self _
    _ ≤ scheduler.config.maxRunningSeqs := hroom
    _ ≤ origin.maxSeqs := hseqs
    _ = s.kvCache.maxSeqs := hslots.sameShape.maxSeqs_eq.symm

/-- An admissible request gets its slot whenever one is free. -/
theorem exists_new_of_admitted {cache : SlabKvCache (KvTensor α)} {req : GenerationRequest α}
    (hadmitted : Admitted scheduler cache.maxSeqLen req) (hfree : cache.freeSlots ≠ []) :
    ∃ seq cache', Sequence.new req cache = (.ok seq, cache') := by
  obtain ⟨handle, cache', hallocate⟩ := SlabKvCache.exists_allocate
    hadmitted.admissible.total_lt hadmitted.total_le_cache hfree
  unfold Sequence.new
  rw [hallocate]
  exact ⟨_, cache', rfl⟩

theorem spared_admitRequest [Zero α] {req : GenerationRequest α}
    (hspared : Spared scheduler origin.maxSeqLen cause s)
    (hslots : Slots scheduler origin s.pc s.running s.kvCache)
    (hseqs : scheduler.config.maxRunningSeqs ≤ origin.maxSeqs) (hpc : s.pc = .admitRequest req) :
    Spared scheduler origin.maxSeqLen cause (admitRequest scheduler req s) := by
  have hadmitted : Admitted scheduler s.kvCache.maxSeqLen req := by
    rw [hslots.sameShape.maxSeqLen_eq]
    apply hspared.pending
    rw [hpc]
    exact List.mem_singleton_self req
  obtain ⟨seq, kvCache, hnew⟩ :=
    exists_new_of_admitted hadmitted (freeSlots_of_admitRequest hslots hseqs hpc)
  unfold admitRequest
  rw [validateRequest_eq_ok.mpr hadmitted, hnew]
  exact hspared.move rfl rfl (List.nil_subset _) trivial

theorem spared_failBatchAt {index : ℕ} {message : String}
    (hspared : Spared scheduler maxSeqLen cause s) (hpc : s.pc = .failBatch index message) :
    Spared scheduler maxSeqLen cause (failBatchAt index message s) := by
  have hcarries : ∀ seq ∈ s.running, cause seq.client message := by
    have hcarries := hspared.carries
    rwa [hpc] at hcarries
  unfold failBatchAt
  split
  · exact hspared.move rfl rfl (List.nil_subset _) trivial
  · rename_i seq hseq
    have hmem := List.mem_of_getElem? hseq
    refine hspared.answer (hcarries seq hmem) rfl rfl (List.nil_subset _) ?_
    intro other hother
    obtain ⟨old, hold, rfl | rfl⟩ := mem_modify hother
    · exact hcarries other hold
    · rw [old.fail_eq]
      exact hcarries old hold

theorem spared_sendItems {index : ℕ} {logits : List (LogitRow α)} {items : List StreamItem}
    (hspared : Spared scheduler maxSeqLen cause s) (hpc : s.pc = .sendItems index logits items) :
    Spared scheduler maxSeqLen cause (sendItems index logits items s) := by
  have hitems : ∀ message, .error message ∉ items := by
    have hcarries := hspared.carries
    rwa [hpc] at hcarries
  unfold sendItems
  split
  · rename_i seq item rest _
    refine hspared.update (List.Subset.refl _) (fun _ hreq ↦ nomatch hreq) ?_
      fun message hmem ↦ hitems message (List.mem_cons_of_mem _ hmem)
    intro client message hmem
    left
    apply error_of_send rfl _ hmem
    rintro rfl
    exact hitems message List.mem_cons_self
  · exact hspared.move rfl rfl (List.nil_subset _) trivial

theorem spared_answerQueued {drained : List (GenerationRequest α)}
    (hspared : Spared scheduler maxSeqLen cause s) (hpc : s.pc = .answerQueued drained)
    (hcause : ∀ client, cause client shutdownMessage) :
    Spared scheduler maxSeqLen cause (answerQueued drained s) := by
  cases drained with
  | nil => exact hspared.move rfl rfl (List.nil_subset _) trivial
  | cons req rest =>
      refine hspared.answer (hcause req.client) rfl rfl ?_ trivial
      rw [hpc]
      exact List.subset_cons_self req rest

theorem spared_answerRunning (hspared : Spared scheduler maxSeqLen cause s)
    (hcause : ∀ client, cause client shutdownMessage) :
    Spared scheduler maxSeqLen cause (answerRunning s) := by
  unfold answerRunning
  split
  · exact hspared.move rfl rfl (List.nil_subset _) trivial
  · exact hspared.answer (hcause _) rfl rfl (List.nil_subset _) trivial

theorem spared_evictAt {index : ℕ} (hspared : Spared scheduler maxSeqLen cause s)
    (hkeeps : ∀ seq, s.running[index]? = some seq →
      evictAt scheduler index s = s.goto (.evict (index + 1))) :
    Spared scheduler maxSeqLen cause (evictAt scheduler index s) := by
  cases hseq : s.running[index]? with
  | some seq =>
      rw [hkeeps seq hseq]
      exact hspared.move rfl rfl (List.nil_subset _) trivial
  | none =>
      unfold evictAt
      rw [hseq]
      dsimp only
      split
      · exact hspared.move rfl rfl (List.nil_subset _) trivial
      · exact hspared.move rfl rfl (List.nil_subset _) trivial

variable [Kernels α]

theorem spared_prefill {seq : Sequence α} (hspared : Spared scheduler maxSeqLen cause s)
    (htensor : ∀ err : ModelError,
      (scheduler.model.prefill seq.promptTokens seq.kvHandle s.kvCache).1 = .error err →
        err.IsTensor)
    (hcause : ∀ text, (scheduler.model.prefill seq.promptTokens seq.kvHandle s.kvCache).1 =
        .error (.tensor text) →
      cause seq.client s!"failed to prefill request {seq.id}: {(ModelError.tensor text).message}") :
    Spared scheduler maxSeqLen cause (prefill scheduler seq s) := by
  unfold prefill
  split
  · rename_i err kvCache hrun
    have herr := congrArg Prod.fst hrun
    obtain ⟨text, rfl⟩ := htensor err herr
    exact hspared.answer (hcause text herr) rfl rfl (List.nil_subset _) trivial
  · exact hspared.move rfl rfl (List.nil_subset _) trivial

theorem spared_forward (hspared : Spared scheduler maxSeqLen cause s)
    (htensor : ∀ err : ModelError,
      (scheduler.model.forward (s.running.map Sequence.decodeInput) s.kvCache).1 = .error err →
        err.IsTensor)
    (hcause : ∀ text, (scheduler.model.forward (s.running.map Sequence.decodeInput) s.kvCache).1 =
        .error (.tensor text) → ∀ seq ∈ s.running,
      cause seq.client s!"decode batch failed: {(ModelError.tensor text).message}") :
    Spared scheduler maxSeqLen cause (forward scheduler s) := by
  unfold forward
  split
  · rename_i err kvCache hrun
    have herr := congrArg Prod.fst hrun
    obtain ⟨text, rfl⟩ := htensor err herr
    exact hspared.move rfl rfl (List.nil_subset _) (hcause text herr)
  · exact hspared.move rfl rfl (List.nil_subset _) trivial

theorem spared_sampleToken {index : ℕ} {logits : List (LogitRow α)}
    (hspared : Spared scheduler maxSeqLen cause s)
    (hrow : ∀ seq, s.running[index]? = some seq → ∃ row, logits[index]? = some row) :
    Spared scheduler maxSeqLen cause (sampleToken index logits s) := by
  unfold sampleToken
  split
  · exact hspared.move rfl rfl (List.nil_subset _) trivial
  · rename_i seq hseq
    obtain ⟨row, hrow⟩ := hrow seq hseq
    rw [logitRow_eq_ok.mpr hrow]
    dsimp only
    split
    · exact hspared.move rfl rfl (List.nil_subset _) trivial
    · rename_i tokens stepped _
      split
      · exact hspared.move rfl rfl (List.nil_subset _)
          (error_notMem_updateItems tokens stepped.finishReason)
      · exact hspared.move rfl rfl (List.nil_subset _) trivial

/-- The causes cover what the step from `s` to `s'` may report. -/
structure Covers (scheduler : Scheduler α) (cause : ClientId → String → Prop) (s s' : State α) :
    Prop where
  shutdown : s.shutdown = true → ∀ client, cause client shutdownMessage
  prefill : ∀ seq text, s.pc = .prefill seq → s' = prefill scheduler seq s →
    (scheduler.model.prefill seq.promptTokens seq.kvHandle s.kvCache).1 = .error (.tensor text) →
      cause seq.client s!"failed to prefill request {seq.id}: {(ModelError.tensor text).message}"
  forward : ∀ text, s.pc = .forward → s' = forward scheduler s →
    (scheduler.model.forward (s.running.map Sequence.decodeInput) s.kvCache).1 =
      .error (.tensor text) → ∀ seq ∈ s.running,
        cause seq.client s!"decode batch failed: {(ModelError.tensor text).message}"

theorem spared_next {late : List ClientId} (hspared : Spared scheduler origin.maxSeqLen cause s)
    (hcovers : Covers scheduler cause s s') (hfollowing : Following scheduler origin.maxSeqLen s)
    (hslots : Slots scheduler origin s.pc s.running s.kvCache)
    (hplaced : Placed s.pc s.running s.queue) (hopen : s.StaysOpen)
    (hshape : scheduler.model.ShapedFor origin)
    (hseqs : scheduler.config.maxRunningSeqs ≤ origin.maxSeqs)
    (hnext : next scheduler late s = some s') : Spared scheduler origin.maxSeqLen cause s' := by
  -- The scheduler only says that it is shutting down when it is.
  have hshutdown : s.queue.closed = true → ∀ client, cause client shutdownMessage := by
    intro hclosed
    apply hcovers.shutdown
    by_contra hrunning
    rw [Bool.not_eq_true] at hrunning
    rw [(hopen hrunning).1] at hclosed
    cases hclosed
  cases schedStep_of_next hnext with
  | stop _ _ | enter _ | resume _ =>
      exact hspared.move rfl rfl (List.nil_subset _) trivial
  | endLoop _ _ => exact spared_endLoop _ hspared
  | responseDone _ _ _ => exact spared_abandon hspared
  | responseWanted hpc _ _ =>
      refine hspared.move rfl rfl ?_ trivial
      rw [hpc]
      exact List.Subset.refl _
  | @closed site reader _ _ =>
      have hcounted : Spared scheduler origin.maxSeqLen cause (s.recordCancelled [reader]) :=
        hspared.move rfl rfl (List.Subset.refl _) hspared.carries
      exact spared_abandon hcounted
  | stillOpen hpc _ => exact spared_proceed hspared hpc
  | full _ => exact hspared.move rfl rfl (List.nil_subset _) trivial
  | tryPop _ _ => exact spared_tryPop _ hspared
  | admitRequest hpc => exact spared_admitRequest hspared hslots hseqs hpc
  | @prefill seq hpc =>
      exact spared_prefill hspared (isTensor_of_prefillPass hfollowing hslots hshape hpc).2
        fun text ↦ hcovers.prefill seq text hpc rfl
  | evict hpc =>
      exact spared_evictAt hspared fun seq hseq ↦ evictAt_of_following hfollowing hslots hpc hseq
  | park _ _ => exact hspared.move rfl rfl (List.nil_subset _) trivial
  | wake _ _ => exact hspared.move rfl rfl (List.nil_subset _) trivial
  | forward hpc =>
      exact spared_forward hspared (fun err ↦ isTensor_of_forwardPass hfollowing hslots hshape hpc)
        fun text ↦ hcovers.forward text hpc rfl
  | failBatch hpc => exact spared_failBatchAt hspared hpc
  | sampleToken hpc =>
      refine spared_sampleToken hspared fun seq hseq ↦ ?_
      obtain ⟨-, _, _, -, hrow⟩ := exists_follows_of_sampleToken hfollowing hslots hpc hseq
      exact ⟨_, hrow⟩
  | sendItems hpc => exact spared_sendItems hspared hpc
  | closeQueue _ =>
      exact hspared.update (List.nil_subset _) (fun _ hreq ↦ Or.inr hreq) (fun _ _ ↦ Or.inl) trivial
  | answerQueued hpc =>
      rw [hpc] at hplaced
      exact spared_answerQueued hspared hpc (hshutdown hplaced.1)
  | answerRunning hpc =>
      rw [hpc] at hplaced
      exact spared_answerRunning hspared (hshutdown hplaced.1)

/-- Only admissible requests are submitted. -/
def OnlyAdmitted (scheduler : Scheduler α) (maxSeqLen : ℕ) : State α → Action α → Prop
  | _, .submit req _ => Admitted scheduler maxSeqLen req
  | _, _ => True

theorem spared_step {action : Action α} (hspared : Spared scheduler origin.maxSeqLen cause s)
    (hcovers : Covers scheduler cause s s') (hfollowing : Following scheduler origin.maxSeqLen s)
    (hslots : Slots scheduler origin s.pc s.running s.kvCache)
    (hplaced : Placed s.pc s.running s.queue) (hopen : s.StaysOpen)
    (hshape : scheduler.model.ShapedFor origin)
    (hseqs : scheduler.config.maxRunningSeqs ≤ origin.maxSeqs)
    (hallowed : OnlyAdmitted scheduler origin.maxSeqLen s action)
    (hstep : step scheduler action s = some s') : Spared scheduler origin.maxSeqLen cause s' := by
  cases step_cases hstep with
  | sched _ => exact spared_next hspared hcovers hfollowing hslots hplaced hopen hshape hseqs hstep
  | schedShutdown _ _ => exact hspared.move rfl rfl (List.nil_subset _) trivial
  | refuse _ _ =>
      exact hspared.update (s.queue.retainOpen_subset _) (fun _ ↦ Or.inl) (fun _ _ ↦ Or.inl)
        hspared.carries
  | @accept req late _ _ _ =>
      refine ⟨fun other hother ↦ ?_, hspared.pending, hspared.sent, hspared.carries⟩
      rcases List.mem_append.mp hother with hold | hlast
      · exact hspared.queued other (s.queue.retainOpen_subset _ hold)
      · obtain rfl := List.mem_singleton.mp hlast
        exact hallowed
  | notify _ => exact ⟨hspared.queued, hspared.pending, hspared.sent, hspared.carries⟩
  | @client other action after hact =>
      refine ⟨hspared.queued, hspared.pending, fun client message hmem ↦ ?_, hspared.carries⟩
      apply hspared.sent client message
      rwa [← sent_of_act hact client]
  | shutdown => exact ⟨hspared.queued, hspared.pending, hspared.sent, hspared.carries⟩

/-! ## The causes in a run -/

variable {allowed : State α → Action α → Prop} {start : State α}

/-- What has happened in a run stays so. -/
theorem ErrorCause.step {action : Action α} {client : ClientId} {message : String}
    (hcause : ErrorCause scheduler allowed start s client message) (hallowed : allowed s action)
    (hstep : step scheduler action s = some s') :
    ErrorCause scheduler allowed start s' client message := by
  cases hcause with
  | shutdown hshutdown => exact .shutdown ((lasts_step hstep).shutdown hshutdown)
  | prefill hbefore hpc hclient herr hafter =>
      exact .prefill hbefore hpc hclient herr (.step hafter hallowed hstep)
  | batch hbefore hpc hseq hclient herr hafter =>
      exact .batch hbefore hpc hseq hclient herr (.step hafter hallowed hstep)

theorem covers_errorCause {action : Action α} (hreach : Reaches scheduler allowed start s)
    (hstep : step scheduler action s = some s') :
    Covers scheduler (ErrorCause scheduler allowed start s') s s' where
  shutdown hshutdown _ := .shutdown ((lasts_step hstep).shutdown hshutdown)
  prefill _ _ hpc hafter herr := .prefill hreach hpc rfl herr (hafter ▸ .refl)
  forward _ hpc hafter herr _ hseq := .batch hreach hpc hseq rfl herr (hafter ▸ .refl)

/-- **Admissible requests hear of no limit**, in every run. -/
theorem spared_reachable {maxSeqs maxSeqLen maxDepth : ℕ} {capacity : ClientId → ℕ}
    (hseqs : scheduler.config.maxRunningSeqs ≤ maxSeqs)
    (hadmits : ∀ s action, allowed s action → OnlyAdmitted scheduler maxSeqLen s action)
    (hstart : start = init (.new maxSeqs maxSeqLen scheduler.model.kvShape.1
      scheduler.model.kvShape.2.1 scheduler.model.kvShape.2.2) maxDepth capacity)
    (hreach : Reaches scheduler allowed start s) :
    Spared scheduler maxSeqLen (ErrorCause scheduler allowed start s) s := by
  subst hstart
  induction hreach with
  | refl =>
      exact ⟨(fun _ hreq ↦ nomatch hreq), (fun _ hreq ↦ nomatch hreq),
        (fun _ _ hmem ↦ nomatch hmem), trivial⟩
  | @step before after action hbefore hallowed hstep ih =>
      have hshape := scheduler.model.shapedFor_new maxSeqs maxSeqLen
      have hspared := ih.imp fun client message hcause ↦ hcause.step hallowed hstep
      exact spared_step hspared (covers_errorCause hbefore hstep) (following_reachable hbefore)
        (slots_reachable hbefore) (placed_reachable hbefore) (staysOpen_reachable hbefore) hshape
        hseqs (hadmits before action hallowed) hstep

end Step

end Scheduler

end HotBatch
