import HotBatch.Scheduler.Gauges
import HotBatch.Scheduler.QueueHistories
import HotBatch.Scheduler.Settlement

/-!
# What the metrics say

The token counter counts the tokens that sequences have sampled, and a client is sent no token that its
sequence has not. With the bounds between the counters and what the gauges show, this is what a scrape
can rely on, whenever it comes.
-/

namespace HotBatch

namespace Scheduler

variable {α : Type}

/-! ## The token counter and the sequences -/

/-- Every token of a sequence came with an update for its client. -/
def Tallied (s : State α) : Prop :=
  ∀ seq, s.Held seq → seq.generatedTokens.length ≤ (s.view seq.client).updates.length

section Tally

variable {scheduler : Scheduler α} {s s' : State α}

/-- The same client, and the same tokens so far. -/
def SameTokens (seq other : Sequence α) : Prop :=
  other.client = seq.client ∧ other.generatedTokens = seq.generatedTokens

theorem sameTokens_cancel (seq : Sequence α) : SameTokens seq seq.cancel := by
  rw [seq.cancel_eq]
  exact ⟨rfl, rfl⟩

theorem sameTokens_fail (seq : Sequence α) : SameTokens seq seq.fail := by
  rw [seq.fail_eq]
  exact ⟨rfl, rfl⟩

theorem length_updates_mono (hupdates : s.history.updates <+: s'.history.updates)
    (client : ClientId) : (s.view client).updates.length ≤ (s'.view client).updates.length := by
  have hview := hupdates.filter fun update : Update ↦ decide (update.client = client)
  exact hview.length_le

/-- Whoever is held was held before with the same tokens, or has none. -/
theorem Tallied.keep (htallied : Tallied s) (hupdates : s.history.updates <+: s'.history.updates)
    (hheld : ∀ seq, s'.Held seq → (∃ before, s.Held before ∧ SameTokens before seq) ∨
      seq.generatedTokens = []) : Tallied s' := by
  intro seq hseq
  rcases hheld seq hseq with ⟨before, hbefore, hclient, htokens⟩ | hnone
  · rw [hclient, htokens]
    exact (htallied before hbefore).trans (length_updates_mono hupdates _)
  · rw [hnone]
    exact Nat.zero_le _

/-- Nobody moves. -/
theorem Tallied.same (htallied : Tallied s) (hupdates : s'.history.updates = s.history.updates)
    (hrunning : s'.running ⊆ s.running)
    (hresolved : ∀ seq, .sequence seq ∈ s'.history.resolved →
      .sequence seq ∈ s.history.resolved ∨ s.Held seq) : Tallied s' := by
  refine htallied.keep (hupdates ▸ List.prefix_rfl) fun seq hseq ↦ Or.inl ⟨seq, ?_, rfl, rfl⟩
  rcases hseq with hseq | hseq
  · exact Or.inl (hrunning hseq)
  · exact (hresolved seq hseq).elim Or.inr id

/-- Dropping requests holds no sequence. -/
theorem sequence_of_mem {seq : Sequence α} {before : List (Resolved α)}
    (requests : List (GenerationRequest α))
    (hmem : .sequence seq ∈ before ++ requests.map Resolved.request) : .sequence seq ∈ before := by
  rcases List.mem_append.mp hmem with hold | hnew
  · exact hold
  · obtain ⟨req, -, heq⟩ := List.mem_map.mp hnew
    cases heq

theorem Tallied.modify (htallied : Tallied s) {index : ℕ} {f : Sequence α → Sequence α}
    (hf : ∀ seq, SameTokens seq (f seq))
    (hupdates : s'.history.updates = s.history.updates)
    (hrunning : s'.running = s.running.modify index f)
    (hresolved : s'.history.resolved = s.history.resolved) : Tallied s' := by
  refine htallied.keep (hupdates ▸ List.prefix_rfl) fun seq hseq ↦ Or.inl ?_
  rcases hseq with hseq | hseq
  · rw [hrunning] at hseq
    obtain ⟨before, hbefore, rfl | rfl⟩ := mem_modify hseq
    · exact ⟨seq, Or.inl hbefore, rfl, rfl⟩
    · exact ⟨before, Or.inl hbefore, hf before⟩
  · exact ⟨seq, Or.inr (hresolved ▸ hseq), rfl, rfl⟩

/-- Sequences may move from `running` to the resolved ones. -/
theorem Tallied.reap (htallied : Tallied s) (hupdates : s'.history.updates = s.history.updates)
    (hrunning : s'.running = s.running.filter fun seq ↦ !seq.isDone)
    (hresolved : s'.history.resolved =
      s.history.resolved ++ (s.running.filter Sequence.isDone).map .sequence) : Tallied s' := by
  refine htallied.same hupdates ?_ fun seq hseq ↦ ?_
  · rw [hrunning]
    exact List.filter_subset_self _
  · rw [hresolved] at hseq
    rcases List.mem_append.mp hseq with hold | hnew
    · exact Or.inl hold
    · obtain ⟨done, hdone, heq⟩ := List.mem_map.mp hnew
      obtain rfl := Resolved.sequence.inj heq
      exact Or.inr (Or.inl (List.mem_of_mem_filter hdone))

/-- A sequence that has not started yet may join. -/
theorem Tallied.join (htallied : Tallied s) (joined : Sequence α)
    (hjoined : joined.generatedTokens = []) (hupdates : s'.history.updates = s.history.updates)
    (hheld : ∀ seq, s'.Held seq → s.Held seq ∨ seq = joined) : Tallied s' := by
  refine htallied.keep (hupdates ▸ List.prefix_rfl) fun seq hseq ↦ ?_
  rcases hheld seq hseq with hold | rfl
  · exact Or.inl ⟨seq, hold, rfl, rfl⟩
  · exact Or.inr hjoined

/-- A sequence that has not started yet may be released. -/
theorem Tallied.release (htallied : Tallied s) {seq : Sequence α} (hnone : seq.generatedTokens = [])
    (hupdates : s'.history.updates = s.history.updates) (hrunning : s'.running = s.running)
    (hresolved : s'.history.resolved = s.history.resolved ++ [.sequence seq]) : Tallied s' := by
  refine htallied.join seq hnone hupdates fun other hother ↦ ?_
  rcases hother with hother | hother
  · exact Or.inl (Or.inl (hrunning ▸ hother))
  · rw [hresolved] at hother
    rcases List.mem_append.mp hother with hold | hnew
    · exact Or.inl (Or.inr hold)
    · exact Or.inr (Resolved.sequence.inj (List.mem_singleton.mp hnew))

/-- A candidate has no tokens. -/
theorem generatedTokens_of_candidate (hbooks : Books s) {seq : Sequence α}
    (hcandidate : s.pc.candidate = some seq) : seq.generatedTokens = [] :=
  (hbooks.agrees _ (admitting_mem_holdings hcandidate)).2.generatedTokens

theorem tallied_abandon {site : Site α} (htallied : Tallied s)
    (hcandidate : ∀ seq, site.candidate = some seq → seq.generatedTokens = []) : Tallied (abandon site s) := by
  cases site with
  | removing index => exact htallied.modify sameTokens_cancel rfl rfl rfl
  | delivering index logits => exact htallied.modify sameTokens_cancel rfl rfl rfl
  | popped req =>
      exact htallied.same rfl (List.Subset.refl _) fun seq hseq ↦
        Or.inl (sequence_of_mem [req] hseq)
  | allocated seq | prefilled seq =>
      refine htallied.release ?_ rfl rfl rfl
      rw [(sameTokens_cancel seq).2]
      exact hcandidate seq rfl

theorem tallied_proceed {site : Site α} (htallied : Tallied s)
    (hcandidate : ∀ seq, site.candidate = some seq → seq.generatedTokens = []) : Tallied (proceed site s) := by
  cases site with
  | prefilled seq =>
      refine htallied.join seq (hcandidate seq rfl) rfl ?_
      rintro other (hother | hother)
      · rcases List.mem_append.mp hother with hold | hnew
        · exact Or.inl (Or.inl hold)
        · exact Or.inr (List.mem_singleton.mp hnew)
      · exact Or.inl (Or.inr hother)
  | removing _ | delivering _ _ | popped _ | allocated _ => exact htallied

theorem tallied_tryPop {late : List ClientId} (htallied : Tallied s) : Tallied (tryPop late s) := by
  unfold tryPop
  split <;> exact htallied.same rfl (List.Subset.refl _) fun seq hseq ↦
    Or.inl (sequence_of_mem _ hseq)

theorem tallied_admitRequest {req : GenerationRequest α} (htallied : Tallied s) :
    Tallied (admitRequest scheduler req s) := by
  have hdropped : ∀ {after : State α}, after.history.updates = s.history.updates →
      after.running = s.running → after.history.resolved = s.history.resolved ++ [.request req] →
        Tallied after := by
    intro after hupdates hrunning hresolved
    refine htallied.same hupdates (hrunning ▸ List.Subset.refl _) fun seq hseq ↦ ?_
    rw [hresolved] at hseq
    exact Or.inl (sequence_of_mem [req] hseq)
  unfold admitRequest
  split
  · exact hdropped rfl rfl rfl
  · split
    · exact hdropped rfl rfl rfl
    · exact htallied

theorem tallied_evictAt {index : ℕ} (htallied : Tallied s) :
    Tallied (evictAt scheduler index s) := by
  unfold evictAt
  split
  · exact htallied.reap rfl rfl rfl
  · dsimp only
    split
    · exact htallied.modify sameTokens_fail rfl rfl rfl
    · exact htallied

/-- The sequence at this index has sampled one token more. -/
theorem Tallied.update [Floats α] (htallied : Tallied s) {index : ℕ} {seq stepped after : Sequence α}
    {row : LogitRow α} {tokens : List Token} {update : Update}
    (hseq : s.running[index]? = some seq) (hadvance : seq.advance row = some (tokens, stepped))
    (hafter : SameTokens stepped after) (hclient : update.client = seq.client)
    (hupdates : s'.history.updates = s.history.updates ++ [update])
    (hrunning : s'.running = s.running.set index after)
    (hresolved : s'.history.resolved = s.history.resolved) : Tallied s' := by
  have hmore : s.history.updates <+: s'.history.updates := hupdates ▸ List.prefix_append _ _
  obtain ⟨-, -, -, hsteppedClient, -, -, hgenerated⟩ := Sequence.advance_frame hadvance
  intro other hother
  have hkept : s.Held other →
      other.generatedTokens.length ≤ (s'.view other.client).updates.length := fun hold ↦
    (htallied other hold).trans (length_updates_mono hmore _)
  rcases hother with hother | hother
  · rw [hrunning] at hother
    rcases List.mem_or_eq_of_mem_set hother with hold | rfl
    · exact hkept (Or.inl hold)
    · have hbefore := htallied seq (Or.inl (List.mem_of_getElem? hseq))
      have hview : (s'.view seq.client).updates = (s.view seq.client).updates ++ [update] := by
        unfold State.view
        rw [hupdates, List.filter_append]
        simp [hclient]
      rw [hafter.1, hafter.2, hsteppedClient, hgenerated, hview, List.length_append,
        List.length_append]
      exact Nat.add_le_add_right hbefore 1
  · exact hkept (Or.inr (hresolved ▸ hother))

variable [Kernels α]

theorem tallied_sampleToken {index : ℕ} {logits : List (LogitRow α)} (htallied : Tallied s) :
    Tallied (sampleToken index logits s) := by
  unfold sampleToken
  split
  · exact htallied.reap rfl rfl rfl
  rename_i seq hseq
  split
  · exact htallied.modify sameTokens_fail rfl rfl rfl
  split
  · exact htallied
  rename_i tokens stepped hadvance
  dsimp only
  split
  · exact htallied.update hseq hadvance ⟨rfl, rfl⟩ rfl rfl rfl rfl
  · exact htallied.update hseq hadvance (sameTokens_cancel stepped) rfl rfl rfl rfl

theorem tallied_schedStep {late : List ClientId} (htallied : Tallied s) (hbooks : Books s)
    (hstep : SchedStep scheduler late s s') : Tallied s' := by
  have hcandidate : ∀ {site : Site α}, s.pc.candidate = site.candidate →
      ∀ seq, site.candidate = some seq → seq.generatedTokens = [] := fun hpc seq hseq ↦
    generatedTokens_of_candidate hbooks (hpc.trans hseq)
  cases hstep with
  | stop _ _ | enter _ | full _ | park _ _ | resume _ | wake _ _ | closeQueue _
  | responseWanted _ _ _ => exact htallied
  | @endLoop site _ _ => cases site <;> exact htallied.reap rfl rfl rfl
  | responseDone hpc _ _ => exact tallied_abandon htallied (hcandidate (hpc ▸ rfl))
  | @closed site client hpc _ =>
      have hrecorded : Tallied (s.recordCancelled [client]) := htallied
      exact tallied_abandon hrecorded (hcandidate (hpc ▸ rfl))
  | stillOpen hpc _ => exact tallied_proceed htallied (hcandidate (hpc ▸ rfl))
  | tryPop _ _ => exact tallied_tryPop htallied
  | admitRequest _ => exact tallied_admitRequest htallied
  | @prefill seq hpc =>
      unfold prefill
      split
      · refine htallied.release ?_ rfl rfl rfl
        rw [(sameTokens_fail seq).2]
        exact generatedTokens_of_candidate hbooks (hpc ▸ rfl)
      · exact htallied
  | evict _ => exact tallied_evictAt htallied
  | forward _ =>
      unfold forward
      split <;> exact htallied
  | failBatch _ =>
      unfold failBatchAt
      split
      · exact htallied.reap rfl rfl rfl
      · exact htallied.modify sameTokens_fail rfl rfl rfl
  | sampleToken _ => exact tallied_sampleToken htallied
  | sendItems _ =>
      unfold sendItems
      split <;> exact htallied
  | @answerQueued drained _ =>
      cases drained with
      | nil => exact htallied
      | cons req rest =>
          exact htallied.same rfl (List.Subset.refl _) fun seq hseq ↦
            Or.inl (sequence_of_mem [req] hseq)
  | answerRunning _ =>
      unfold answerRunning
      split
      · exact htallied
      · rename_i seq rest hrunning
        refine htallied.same rfl ?_ fun other hother ↦ ?_
        · rw [hrunning]
          exact List.subset_cons_self _ _
        · rcases List.mem_append.mp hother with hold | hnew
          · exact Or.inl hold
          · obtain rfl := Resolved.sequence.inj (List.mem_singleton.mp hnew)
            exact Or.inr (Or.inl (hrunning ▸ List.mem_cons_self))

theorem tallied_step {action : Action α} (htallied : Tallied s) (hbooks : Books s)
    (hstep : step scheduler action s = some s') : Tallied s' := by
  cases step_cases hstep with
  | sched hsched => exact tallied_schedStep htallied hbooks hsched
  | refuse _ _ | accept _ _ _ =>
      exact htallied.same rfl (List.Subset.refl _) fun seq hseq ↦
        Or.inl (sequence_of_mem _ hseq)
  | schedShutdown _ _ | notify _ | client _ | shutdown => exact htallied

end Tally

/-! ## What was received -/

/-- Summing up for different keys counts nobody twice. -/
theorem sum_length_filter_le {β κ : Type} [DecidableEq κ] (key : β → κ) {keys : List κ}
    (hnodup : keys.Nodup) (values : List β) :
    (keys.map fun k ↦ (values.filter fun value ↦ key value = k).length).sum ≤ values.length := by
  induction keys generalizing values with
  | nil => exact Nat.zero_le _
  | cons k keys ih =>
      obtain ⟨hk, hnodup⟩ := List.nodup_cons.mp hnodup
      have hothers : (keys.map fun other ↦ (values.filter fun value ↦ key value = other).length) =
          keys.map fun other ↦ ((values.filter fun value ↦ key value ≠ k).filter fun value ↦
            key value = other).length := by
        refine List.map_congr_left fun other hother ↦ ?_
        have hne : other ≠ k := fun heq ↦ hk (heq ▸ hother)
        rw [List.filter_filter]
        congr 1
        refine List.filter_congr fun value _ ↦ ?_
        by_cases hvalue : key value = other <;> simp [hvalue, hne]
      have hsplit := List.length_eq_length_filter_add (l := values) fun value ↦ key value = k
      have hrest := ih hnodup (values.filter fun value ↦ key value ≠ k)
      rw [List.map_cons, List.sum_cons, hothers, hsplit]
      refine Nat.add_le_add_left (hrest.trans (Nat.le_of_eq ?_)) _
      congr 1
      refine List.filter_congr fun value _ ↦ ?_
      simp

/-- The tokens on the channel of a client. -/
def State.received (s : State α) (client : ClientId) : List Token :=
  (s.clients client).sent.filterMap StreamItem.token?

section Received

variable {scheduler : Scheduler α} {s : State α}

theorem filterMap_token_of_atMostOneError {items : List StreamItem} (herror : AtMostOneError items) :
    items.filterMap StreamItem.token? = [] := by
  rcases herror with rfl | ⟨message, rfl⟩ <;> rfl

/-- Every token on a channel came with an update for its client. -/
theorem length_received_le (hbooks : Books s) (htallied : Tallied s) (client : ClientId) :
    (s.received client).length ≤ (s.view client).updates.length := by
  have hsent : (s.clients client).sent <+: (s.view client).outgoing := List.prefix_append _ _
  have hle := (hsent.filterMap StreamItem.token?).length_le
  refine hle.trans ?_
  rcases hbooks.view_cases client with ⟨-, herror, -⟩ | ⟨seq, hheld, rfl, haccount⟩
  · rw [filterMap_token_of_atMostOneError herror]
    exact Nat.zero_le _
  · obtain ⟨tokens, ends, houtgoing, -, hends, htaken, -⟩ := haccount.outgoing
    have hnone : ends.filterMap StreamItem.token? = [] := by
      rw [List.filterMap_eq_nil_iff]
      intro item hitem
      cases item with
      | token token => exact absurd hitem (hends token)
      | finished _ | error _ => rfl
    have hall : (tokens.map StreamItem.token).filterMap StreamItem.token? = tokens := by
      rw [List.filterMap_map]
      exact List.filterMap_some
    rw [houtgoing, List.filterMap_append, hall, hnone, List.append_nil]
    calc tokens.length
        ≤ seq.takenTokens.length := htaken.length_le
      _ ≤ seq.generatedTokens.length := List.length_take_le' _ _
      _ ≤ (s.view seq.client).updates.length := htallied seq hheld

end Received

/-! ## All of it in every state -/

/-- What a scrape can rely on. -/
structure MetricsTell (scheduler : Scheduler α) (maxDepth : ℕ) (s : State α) : Prop where
  metered : Metered scheduler s
  gauged : Gauged scheduler s
  handled_le : s.pc.handled ≤ scheduler.config.maxRunningSeqs
  received_le : (s.history.accepted.map fun req ↦ (s.received req.client).length).sum ≤
    s.metrics.tokensGenerated
  queueDepth_eq : s.metrics.queueDepth = s.queue.requests.length
  queueDepth_le : s.metrics.queueDepth ≤ maxDepth
  cancelled_accepted : s.metrics.cancelledSequences ⊆ s.history.accepted.map GenerationRequest.client
  cancelled_nodup : s.metrics.cancelledSequences.Nodup

section Run

variable [Kernels α] {scheduler : Scheduler α} {s : State α} {allowed : State α → Action α → Prop}
  {maxSeqs maxSeqLen numLayers nHeads headDim maxDepth : ℕ} {capacity : ClientId → ℕ}

theorem length_running_le (hreach : Reaches scheduler allowed
    (init (.new maxSeqs maxSeqLen numLayers nHeads headDim) maxDepth capacity) s) :
    s.running.length ≤ scheduler.config.maxRunningSeqs :=
  (Nat.le_add_right _ _).trans (slots_reachable hreach).length_le

theorem metered_reachable (hreach : Reaches scheduler allowed
    (init (.new maxSeqs maxSeqLen numLayers nHeads headDim) maxDepth capacity) s) :
    Metered scheduler s := by
  induction hreach with
  | refl => exact Metered.init _ _ _
  | step hbefore hallowed hnext ih =>
      exact metered_step ih (placed_reachable hbefore) (length_running_le hbefore)
        (never_panicked (.step hbefore hallowed hnext)) hnext

theorem gauged_reachable (hreach : Reaches scheduler allowed
    (init (.new maxSeqs maxSeqLen numLayers nHeads headDim) maxDepth capacity) s) :
    Gauged scheduler s := by
  refine hreach.invariant ?_ ⟨rfl, Nat.zero_le _⟩
  intro before after action hbefore hgauged _ hnext
  exact gauged_step hgauged (length_running_le hbefore) hnext

theorem tallied_reachable (hreach : Reaches scheduler allowed
    (init (.new maxSeqs maxSeqLen numLayers nHeads headDim) maxDepth capacity) s) : Tallied s := by
  refine hreach.invariant ?_ ?_
  · intro before after action hbefore htallied _ hnext
    exact tallied_step htallied (books_reachable hbefore) hnext
  · rintro seq (hseq | hseq) <;> cases hseq

/-- **The metrics tell the truth, at any moment.** Whatever submitters, connections and the operator do
between the steps of the scheduler: the clients have been sent no more tokens than the counter says; the
counter exceeds the number of passes by no more than sharing accounts for, apart from the rows of the
pass under way; the gauge of running sequences is exact except while requests are admitted or the
last sequences are answered; the gauge of the queue is its length; and the requests counted as cancelled
are different accepted ones. -/
theorem metrics_tell (hreach : Reaches scheduler allowed
    (init (.new maxSeqs maxSeqLen numLayers nHeads headDim) maxDepth capacity) s) :
    MetricsTell scheduler maxDepth s := by
  have hbooks := books_reachable hreach
  have hmetered := metered_reachable hreach
  obtain ⟨hgauge, hbounded⟩ := SharedQueue.gauge_eq_length hreach
  refine ⟨hmetered, gauged_reachable hreach, hmetered.rows_le.trans (length_running_le hreach), ?_,
    hgauge, hgauge ▸ hbounded, ?_, ?_⟩
  · have hclients : ∀ client, (s.received client).length ≤ (s.history.updates.filter fun update ↦
        update.client = client).length := length_received_le hbooks (tallied_reachable hreach)
    calc (s.history.accepted.map fun req ↦ (s.received req.client).length).sum
        ≤ ((s.history.accepted.map GenerationRequest.client).map fun client ↦
            (s.history.updates.filter fun update ↦ update.client = client).length).sum := by
          rw [List.map_map]
          exact List.sum_le_sum fun req _ ↦ hclients req.client
      _ ≤ s.history.updates.length := sum_length_filter_le Update.client hbooks.nodup _
      _ = s.metrics.tokensGenerated := hmetered.tokens_eq.symm
  · intro client hclient
    by_contra hother
    have hblank := congrArg View.cancelled (hbooks.untouched client hother)
    exact List.count_eq_zero.mp hblank hclient
  · exact List.nodup_iff_count_le_one.mpr hbooks.cancelled_le

end Run

/-- While the second and the third request share a pass, the third client leaves and a fourth request
comes in. -/
def tinyScraped : State ℚ :=
  (Transition.run (step tinyGpt2Scheduler) Anything
    ([.client 2 .dropReceiver, .submit ⟨"d", [1], shareConfig 5 2, 3, 0, 0⟩ []] ++
      List.replicate 9 (.sched [])) tinyReused).getD tinyReused

theorem metrics_tell_tinyScraped :
    tinyScraped.metrics.tokensGenerated = 5 ∧ tinyScraped.metrics.schedulerSteps = 3 ∧
      tinyScraped.metrics.cancelledSequences = [2] ∧ tinyScraped.metrics.queueDepth = 1 ∧
      [0, 1, 2, 3].map tinyScraped.received = [[0, 0], [0, 1, 0], [], []] ∧
      MetricsTell tinyGpt2Scheduler 4 tinyScraped := by
  have hscraped : Reaches tinyGpt2Scheduler Anything tinyReused tinyScraped :=
    Transition.reaches_getD_run (by decide +kernel) tinyReused
  exact ⟨by decide +kernel, by decide +kernel, by decide +kernel, by decide +kernel,
    by decide +kernel, metrics_tell (reaches_tinyReused.trans hscraped)⟩

end Scheduler

end HotBatch
