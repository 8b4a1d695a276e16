import HotBatch.Scheduler.Allowance
import HotBatch.Scheduler.Draining
import HotBatch.Scheduler.WithinCapacity

/-!
# How the scheduler settles a request

A request is over when the scheduler has dropped its sender, or will at the next reaping. By then its
terminal item has gone out, unless the channel was too small, nobody read it any more, or
`response_done` was set. Until then the channel has room for whatever comes next.
-/

namespace HotBatch

/-- The same channel with the same signals; more may have been sent. -/
structure Client.Kept (client client' : Client) : Prop where
  capacity : client'.capacity = client.capacity
  receiverOpen : client'.receiverOpen = client.receiverOpen
  responseDone : client'.responseDone = client.responseDone

namespace Client.Kept

variable {client client' : Client}

theorem of_eq (heq : client' = client) : client.Kept client' := heq ▸ ⟨rfl, rfl, rfl⟩

theorem send (item : StreamItem) (client : Client) : client.Kept (client.send item) :=
  ⟨rfl, rfl, rfl⟩

theorem trySend (item : StreamItem) (client : Client) : client.Kept (client.trySend item) := by
  unfold Client.trySend
  split
  · exact .send item client
  · exact .of_eq rfl

theorem ample (hkept : client.Kept client') {limit : ℕ} (hample : client'.Ample limit) :
    client.Ample limit :=
  ⟨hample.limit_pos, hkept.capacity ▸ hample.limit_lt, hkept.receiverOpen ▸ hample.receiverOpen⟩

end Client.Kept

namespace Scheduler

variable {α : Type} {s s' : State α}

/-! ## What a step writes to the channels -/

section Writes

variable [Kernels α] {scheduler : Scheduler α}

/-- The client to whom the next step of the scheduler sends an error. -/
def State.answering (scheduler : Scheduler α) (s : State α) : Option ClientId :=
  match s.pc with
  | .admitRequest req =>
      match validateRequest scheduler s.kvCache req, (Sequence.new req s.kvCache).1 with
      | .ok (), .ok _ => none
      | _, _ => some req.client
  | .prefill seq =>
      match (scheduler.model.prefill seq.promptTokens seq.kvHandle s.kvCache).1 with
      | .error _ => some seq.client
      | .ok () => none
  | .evict index =>
      match s.running[index]? with
      | some seq =>
          if scheduler.model.maxPositions ≤ seq.decodePosition then some seq.client else none
      | none => none
  | .failBatch index _ => (s.running[index]?).map Sequence.client
  | .sampleToken index logits =>
      match s.running[index]?, logitRow logits index with
      | some seq, .error _ => some seq.client
      | _, _ => none
  | .answerQueued drained => drained.head?.map GenerationRequest.client
  | .answerRunning => s.running.head?.map Sequence.client
  | _ => none

/-- Nothing, one item into its reserved place, or an attempt to send one error. -/
inductive Writes (scheduler : Scheduler α) (s s' : State α) : Prop
  | nothing (hclients : s'.clients = s.clients) (hnone : s.answering scheduler = none)
  | item {client : ClientId} {item : StreamItem}
      (hclients : s'.clients = (s.updateClient client (Client.send item)).clients)
      (hnone : s.answering scheduler = none)
  | answer {client : ClientId} {message : String}
      (hclients : s'.clients = (s.trySendError client message).clients)
      (hanswering : s.answering scheduler = some client)

/-- What a step of the scheduler can do to the requests of others. -/
structure Effect (scheduler : Scheduler α) (s s' : State α) : Prop where
  writes : Writes scheduler s s'
  accepted_eq : s'.history.accepted = s.history.accepted
  panics : s'.pc = .panicked → ∃ index logits seq row, s.pc = .sampleToken index logits ∧
    s.running[index]? = some seq ∧ seq.advance row = none

/-- **A step of the scheduler writes to one channel at most.** It accepts nothing, and panics only if
there is no update to take. -/
theorem effect_schedStep {late : List ClientId} (hstep : SchedStep scheduler late s s') :
    Effect scheduler s s' := by
  cases hstep with
  | stop hpc _ | enter hpc | responseWanted hpc _ _ | full hpc | park hpc _ | resume hpc
  | wake hpc _ | closeQueue hpc =>
      exact ⟨.nothing rfl (by unfold State.answering; rw [hpc]), rfl, nofun⟩
  | @endLoop site hpc _ | @responseDone site _ hpc _ _ | @closed site _ hpc _
  | @stillOpen site _ hpc _ =>
      have hnone : s.answering scheduler = none := by
        unfold State.answering
        rw [hpc]
      cases site <;> exact ⟨.nothing rfl hnone, rfl, nofun⟩
  | tryPop hpc _ =>
      have hnone : s.answering scheduler = none := by
        unfold State.answering
        rw [hpc]
      unfold tryPop
      split <;> exact ⟨.nothing rfl hnone, rfl, nofun⟩
  | forward hpc =>
      have hnone : s.answering scheduler = none := by
        unfold State.answering
        rw [hpc]
      unfold forward
      split <;> exact ⟨.nothing rfl hnone, rfl, nofun⟩
  | @admitRequest req hpc =>
      unfold admitRequest
      split
      · rename_i hinvalid
        exact ⟨.answer rfl (by simp [State.answering, hpc, hinvalid]), rfl, nofun⟩
      · rename_i hvalid
        split
        · rename_i hnew
          exact ⟨.answer rfl (by simp [State.answering, hpc, hvalid, hnew]), rfl, nofun⟩
        · rename_i hnew
          exact ⟨.nothing rfl (by simp [State.answering, hpc, hvalid, hnew]), rfl, nofun⟩
  | @prefill seq hpc =>
      unfold prefill
      split
      · rename_i hprefill
        exact ⟨.answer rfl (by simp [State.answering, hpc, hprefill]), rfl, nofun⟩
      · rename_i hprefill
        exact ⟨.nothing rfl (by simp [State.answering, hpc, hprefill]), rfl, nofun⟩
  | @evict index hpc =>
      unfold evictAt
      cases hseq : s.running[index]? with
      | none =>
          refine ⟨.nothing rfl (by simp [State.answering, hpc, hseq]), rfl, ?_⟩
          dsimp only [State.goto]
          split <;> exact nofun
      | some seq =>
          dsimp only
          split
          · rename_i hbeyond
            exact ⟨.answer rfl (by simp [State.answering, hpc, hseq, hbeyond]), rfl, nofun⟩
          · rename_i hwithin
            exact ⟨.nothing rfl (by simp [State.answering, hpc, hseq, hwithin]), rfl, nofun⟩
  | @failBatch index message hpc =>
      unfold failBatchAt
      cases hseq : s.running[index]? with
      | none => exact ⟨.nothing rfl (by simp [State.answering, hpc, hseq]), rfl, nofun⟩
      | some seq => exact ⟨.answer rfl (by simp [State.answering, hpc, hseq]), rfl, nofun⟩
  | @sampleToken index logits hpc =>
      unfold sampleToken
      cases hseq : s.running[index]? with
      | none => exact ⟨.nothing rfl (by simp [State.answering, hpc, hseq]), rfl, nofun⟩
      | some seq =>
          dsimp only
          cases hrow : logitRow logits index with
          | error err => exact ⟨.answer rfl (by simp [State.answering, hpc, hseq, hrow]), rfl, nofun⟩
          | ok row =>
              have hnone : s.answering scheduler = none := by
                simp [State.answering, hpc, hseq, hrow]
              dsimp only
              split
              · rename_i hadvance
                exact ⟨.nothing rfl hnone, rfl, fun _ ↦ ⟨index, logits, seq, row, hpc, hseq, hadvance⟩⟩
              · split <;> exact ⟨.nothing rfl hnone, rfl, nofun⟩
  | sendItems hpc =>
      have hnone : s.answering scheduler = none := by
        unfold State.answering
        rw [hpc]
      unfold sendItems
      split
      · exact ⟨.item rfl hnone, rfl, nofun⟩
      · exact ⟨.nothing rfl hnone, rfl, nofun⟩
  | @answerQueued drained hpc =>
      cases drained with
      | nil => exact ⟨.nothing rfl (by simp [State.answering, hpc]), rfl, nofun⟩
      | cons req rest => exact ⟨.answer rfl (by simp [State.answering, hpc]), rfl, nofun⟩
  | answerRunning hpc =>
      unfold answerRunning
      split
      · rename_i hrunning
        exact ⟨.nothing rfl (by simp [State.answering, hpc, hrunning]), rfl, nofun⟩
      · rename_i hrunning
        exact ⟨.answer rfl (by simp [State.answering, hpc, hrunning]), rfl, nofun⟩

/-- No step of the scheduler touches the signals of a channel. -/
theorem Writes.kept (hwrites : Writes scheduler s s') (client : ClientId) :
    (s.clients client).Kept (s'.clients client) := by
  have hupdated : ∀ {other : ClientId} {f : Client → Client}, (∀ before : Client, before.Kept (f before)) →
      s'.clients = (s.updateClient other f).clients → (s.clients client).Kept (s'.clients client) := by
    intro other f hf hclients
    rw [hclients]
    by_cases heq : client = other
    · rw [heq, clients_updateClient_self]
      exact hf _
    · rw [clients_updateClient_of_ne heq]
      exact .of_eq rfl
  cases hwrites with
  | nothing hclients _ => exact .of_eq (congrFun hclients client)
  | item hclients _ => exact hupdated (Client.Kept.send _) hclients
  | answer hclients _ => exact hupdated (Client.Kept.trySend _) hclients

end Writes

/-! ## Requests that are over -/

/-- The sender of this client has been dropped, or its sequence is done. -/
def State.Over (s : State α) (client : ClientId) : Prop :=
  (∃ entry ∈ s.history.resolved, entry.client = client) ∨
    ∃ seq ∈ s.running, seq.client = client ∧ seq.isDone = true

/-- The scheduler has not finished with the request that it holds so. -/
def Holding.GoesOn : Holding α → Prop
  | waiting _ | admitting _ => True
  | running seq => seq.isDone = false
  | resolved _ => False

section Holdings

/-- An accepted request goes on or is over. -/
theorem Books.goesOn_or_over (hbooks : Books s) {client : ClientId}
    (haccepted : client ∈ s.history.accepted.map GenerationRequest.client) :
    (∃ holding ∈ s.holdings, holding.client = client ∧ holding.GoesOn) ∨ s.Over client := by
  obtain ⟨holding, hholding, hclient⟩ := hbooks.exists_entry haccepted
  cases holding with
  | waiting _ | admitting _ => exact Or.inl ⟨_, hholding, hclient, trivial⟩
  | running seq =>
      cases hdone : seq.isDone with
      | false => exact Or.inl ⟨_, hholding, hclient, hdone⟩
      | true => exact Or.inr (Or.inr ⟨seq, running_mem_holdings.mp hholding, hclient, hdone⟩)
  | resolved entry =>
      exact Or.inr (Or.inl ⟨entry, resolved_mem_holdings.mp hholding, hclient⟩)

/-- A client has one holding only. -/
theorem Books.holding_unique (hbooks : Books s) {holding other : Holding α}
    (hholding : holding ∈ s.holdings) (hother : other ∈ s.holdings)
    (hclient : other.client = holding.client) : other = holding :=
  Multiset.inj_on_of_nodup_map hbooks.nodup_keys other hother holding hholding hclient

/-- It does not do both. -/
theorem Books.not_over (hbooks : Books s) {holding : Holding α} (hholding : holding ∈ s.holdings)
    (hgoesOn : holding.GoesOn) : ¬ s.Over holding.client := by
  rintro (⟨entry, hentry, hclient⟩ | ⟨seq, hseq, hclient, hdone⟩)
  · obtain rfl := hbooks.holding_unique hholding (resolved_mem_holdings.mpr hentry) hclient
    exact hgoesOn
  · obtain rfl := hbooks.holding_unique hholding (running_mem_holdings.mpr hseq) hclient
    exact Bool.false_ne_true (Eq.symm hgoesOn |>.trans hdone)

/-- Nothing is in flight for a client whose sender has been dropped. -/
theorem Books.inFlight_of_resolved (hbooks : Books s) {entry : Resolved α}
    (hentry : entry ∈ s.history.resolved) : s.inFlight entry.client = [] := by
  unfold State.inFlight
  split
  · split
    · rename_i hclient
      obtain ⟨seq, hseq, hclient⟩ := Option.map_eq_some_iff.mp hclient
      have hrunning := running_mem_holdings.mpr (List.mem_of_getElem? hseq)
      cases hbooks.holding_unique (resolved_mem_holdings.mpr hentry) hrunning hclient
    · rfl
  · rfl

end Holdings

section Over

variable {client : ClientId}

theorem over_of_same (hrunning : s'.running = s.running)
    (hresolved : s'.history.resolved = s.history.resolved) (hover : s'.Over client) :
    s.Over client := by
  unfold State.Over at hover
  rwa [hrunning, hresolved] at hover

/-- The senders of others are dropped. -/
theorem over_of_resolved {more : List (Resolved α)} (hrunning : s'.running ⊆ s.running)
    (hresolved : s'.history.resolved = s.history.resolved ++ more)
    (hother : client ∉ more.map Resolved.client) (hover : s'.Over client) : s.Over client := by
  rcases hover with ⟨entry, hentry, hclient⟩ | ⟨seq, hseq, hdone⟩
  · rw [hresolved] at hentry
    rcases List.mem_append.mp hentry with hold | hnew
    · exact Or.inl ⟨entry, hold, hclient⟩
    · exact absurd (hclient ▸ List.mem_map_of_mem hnew) hother
  · exact Or.inr ⟨seq, hrunning hseq, hdone⟩

/-- The sequence at one index is another one now. -/
theorem over_of_set {index : ℕ} {after : Sequence α} (hrunning : s'.running = s.running.set index after)
    (hresolved : s'.history.resolved = s.history.resolved)
    (hother : after.client = client → after.isDone = false) (hover : s'.Over client) :
    s.Over client := by
  rcases hover with ⟨entry, hentry, hclient⟩ | ⟨seq, hseq, hclient, hdone⟩
  · exact Or.inl ⟨entry, hresolved ▸ hentry, hclient⟩
  · rw [hrunning] at hseq
    rcases List.mem_or_eq_of_mem_set hseq with hold | rfl
    · exact Or.inr ⟨seq, hold, hclient, hdone⟩
    · rw [hother hclient] at hdone
      cases hdone

/-- The sequence of somebody else is cancelled or failed. -/
theorem over_of_stopped {index : ℕ} {seq : Sequence α} {f : Sequence α → Sequence α}
    (hseq : s.running[index]? = some seq) (hf : (f seq).client = seq.client)
    (hrunning : s'.running = s.running.modify index f)
    (hresolved : s'.history.resolved = s.history.resolved) (hother : client ≠ seq.client)
    (hover : s'.Over client) : s.Over client := by
  rw [modify_eq_set hseq] at hrunning
  exact over_of_set hrunning hresolved (fun hsame ↦ absurd (hsame.symm.trans hf) hother) hover

/-- What is reaped was done. -/
theorem over_of_reap (hrunning : s'.running ⊆ s.running)
    (hresolved : s'.history.resolved =
      s.history.resolved ++ (s.running.filter Sequence.isDone).map .sequence)
    (hover : s'.Over client) : s.Over client := by
  rcases hover with ⟨entry, hentry, hclient⟩ | ⟨seq, hseq, hdone⟩
  · rw [hresolved] at hentry
    rcases List.mem_append.mp hentry with hold | hnew
    · exact Or.inl ⟨entry, hold, hclient⟩
    · obtain ⟨seq, hseq, rfl⟩ := List.mem_map.mp hnew
      obtain ⟨hmem, hdone⟩ := List.mem_filter.mp hseq
      exact Or.inr ⟨seq, hmem, hclient, hdone⟩
  · exact Or.inr ⟨seq, hrunning hseq, hdone⟩

end Over

/-! ## What is owed until then -/

section Owed

variable [Kernels α] {scheduler : Scheduler α} {maxSeqLen : ℕ} {req : GenerationRequest α}

/-- No other request comes with the channel of this one. -/
def Owns (req : GenerationRequest α) (s : State α) : Prop :=
  ∀ other ∈ s.history.accepted, other.client = req.client → other = req

theorem going_of_running (hbooks : Books s) (hfollowing : Following scheduler maxSeqLen s)
    (howns : Owns req s) {seq : Sequence α} (hseq : seq ∈ s.running)
    (hclient : seq.client = req.client) (hdone : seq.isDone = false) :
    seq.Going req (s.view req.client) := by
  obtain ⟨index, hindex⟩ := List.mem_iff_getElem?.mp hseq
  obtain ⟨other, hother, turns, hfollows, -⟩ := hfollowing.running index seq hindex
  obtain rfl : other = req := howns other hother (hfollows.client_eq.symm.trans hclient)
  have hserves := hfollows.serves hdone
  obtain ⟨-, hlive⟩ := hbooks.agrees _ (running_mem_holdings.mpr hseq)
  have hlive : seq.Live (s.view seq.client) := hlive hdone
  constructor
  case client_eq => exact hclient
  case maxNewTokens_eq => exact congrArg SamplerConfig.maxNewTokens hserves.config_eq
  case notDone => exact hdone
  case live => exact hclient ▸ hlive
  case generated_lt => exact fun _ ↦ hfollows.generated_lt hdone

/-- Nothing terminal has gone out for a request that goes on. -/
theorem unanswered_of_goesOn (hbooks : Books s) (hfollowing : Following scheduler maxSeqLen s)
    (howns : Owns req s) {holding : Holding α} (hholding : holding ∈ s.holdings)
    (hclient : holding.client = req.client) (hgoesOn : holding.GoesOn) :
    Unanswered req (s.view req.client) := by
  have hagrees := hbooks.agrees holding hholding
  cases holding with
  | waiting other =>
      have hblank : s.view other.client = .blank := hagrees
      have hclient : other.client = req.client := hclient
      rw [← hclient, hblank]
      exact unanswered_blank req
  | admitting seq =>
      have hblank : s.view seq.client = .blank := hagrees.1
      have hclient : seq.client = req.client := hclient
      rw [← hclient, hblank]
      exact unanswered_blank req
  | running seq =>
      have hgoing := going_of_running hbooks hfollowing howns (running_mem_holdings.mp hholding)
        hclient hgoesOn
      exact hgoing.unanswered
  | resolved entry => exact absurd hgoesOn id

/-- A request that is not over, whether or not it has been submitted. -/
theorem unanswered_of_not_over (hbooks : Books s) (hfollowing : Following scheduler maxSeqLen s)
    (howns : Owns req s) (hnot : ¬ s.Over req.client) : Unanswered req (s.view req.client) := by
  by_cases haccepted : req.client ∈ s.history.accepted.map GenerationRequest.client
  · rcases hbooks.goesOn_or_over haccepted with ⟨holding, hholding, hclient, hgoesOn⟩ | hover
    · exact unanswered_of_goesOn hbooks hfollowing howns hholding hclient hgoesOn
    · exact absurd hover hnot
  · have hblank : s.view req.client = .blank := hbooks.untouched req.client haccepted
    rw [hblank]
    exact unanswered_blank req

end Owed

/-- A request that is over has ended. -/
def Discharged (req : GenerationRequest α) (s : State α) : Prop :=
  s.Over req.client → Ended req (s.clients req.client) (s.view req.client)

section Discharged

variable {req : GenerationRequest α}

theorem Discharged.keep (hdischarged : Discharged req s)
    (hkept : (s.clients req.client).Kept (s'.clients req.client))
    (hview : s'.view req.client = s.view req.client)
    (hover : s'.Over req.client → s.Over req.client) : Discharged req s' := by
  intro hafter
  rw [hview]
  apply (hdischarged (hover hafter)).congr
  · exact hkept.ample
  · rw [hkept.responseDone]
    exact id

/-- Only the program counter and `running` have moved. -/
theorem Discharged.move (hdischarged : Discharged req s) (hidle : s.pc.items = none)
    (hidle' : s'.pc.items = none) (hclients : s'.clients = s.clients)
    (hupdates : s'.history.updates = s.history.updates)
    (hcancelled : s'.metrics.cancelledSequences = s.metrics.cancelledSequences)
    (hover : s'.Over req.client → s.Over req.client) : Discharged req s' := by
  apply hdischarged.keep _ _ hover
  · exact .of_eq (congrFun hclients _)
  · exact view_congr (inFlight_idle hidle hidle') (by rw [hclients]) hupdates hcancelled

/-- An error is sent to somebody whose request goes on. -/
theorem Discharged.answer (hdischarged : Discharged req s) {client : ClientId} {message : String}
    (hidle : s.pc.items = none) (hidle' : s'.pc.items = none)
    (hclients : s'.clients = (s.trySendError client message).clients)
    (hupdates : s'.history.updates = s.history.updates)
    (hcancelled : s'.metrics.cancelledSequences = s.metrics.cancelledSequences)
    (hunanswered : client = req.client → Unanswered req (s.view req.client))
    (hover : req.client ≠ client → s'.Over req.client → s.Over req.client) :
    Discharged req s' := by
  by_cases heq : req.client = client
  · intro _
    have hsent : (s.clients req.client).sent = (s.view req.client).outgoing := by
      unfold State.view
      rw [inFlight_of_idle hidle, List.append_nil]
    have hafter : s'.clients req.client = (s.clients req.client).trySendError message := by
      rw [hclients, ← heq]
      exact clients_updateClient_self req.client _
    have hview : s'.view req.client = ⟨((s.clients req.client).trySendError message).sent,
        (s.view req.client).updates, (s.view req.client).cancelled⟩ := by
      unfold State.view
      rw [hafter, inFlight_of_idle hidle', List.append_nil, hupdates, hcancelled]
    rw [hview, hafter]
    exact (hunanswered heq.symm).trySendError hsent message
  · apply hdischarged.keep _ _ (hover heq)
    · rw [hclients]
      exact .of_eq (clients_updateClient_of_ne heq _)
    · exact view_answered_of_ne heq hidle hidle' hclients hupdates hcancelled

/-- Requests whose receivers are gone are thrown out of the queue. -/
theorem Discharged.prune (hdischarged : Discharged req s) (hbooks : Books s) {late : List ClientId}
    (hflight : s'.inFlight req.client = s.inFlight req.client) (hclients : s'.clients = s.clients)
    (hupdates : s'.history.updates = s.history.updates)
    (hcancelled : s'.metrics.cancelledSequences = s.metrics.cancelledSequences ++
      (s.queue.pruned (s.isOpen late)).map GenerationRequest.client)
    (hrunning : s'.running = s.running)
    (hresolved : s'.history.resolved =
      s.history.resolved ++ (s.queue.pruned (s.isOpen late)).map .request) :
    Discharged req s' := by
  have hview := view_counted hflight (by rw [hclients]) hupdates hcancelled
  by_cases hpruned : req.client ∈ (s.queue.pruned (s.isOpen late)).map GenerationRequest.client
  · intro _
    obtain ⟨other, hother, hclient⟩ := List.mem_map.mp hpruned
    obtain ⟨hqueued, hgone⟩ := List.mem_filter.mp hother
    have hblank : s.view other.client = .blank :=
      hbooks.agrees _ (waiting_mem_holdings (Or.inl hqueued))
    rw [hclient] at hblank
    have hunanswered : Unanswered req (s.view req.client) := hblank ▸ unanswered_blank req
    apply hunanswered.ended_of_not_ample
    · rw [hview]
    · intro hample
      unfold State.isOpen at hgone
      rw [hclient, ← hclients, hample.isClosed] at hgone
      cases hgone
  · apply hdischarged.keep (.of_eq (congrFun hclients _))
    · rw [hview, List.count_eq_zero.mpr hpruned]
      rfl
    · apply over_of_resolved (hrunning ▸ List.Subset.refl _) hresolved
      rwa [List.map_map]

end Discharged

/-! ## Every step discharges what it ends -/

section Step

variable [Kernels α] {scheduler : Scheduler α} {origin : SlabKvCache (KvTensor α)} {maxSeqLen : ℕ}
  {req : GenerationRequest α} {client : ClientId}

/-- The request that is being checked goes on. -/
theorem holding_of_site {site : Site α} (hslots : Slots scheduler origin s.pc s.running s.kvCache)
    (hpc : s.pc = .checkDone site ∨ s.pc = .checkClosed site client)
    (hclient : site.client s.running = some client) :
    ∃ holding ∈ s.holdings, holding.client = client ∧ holding.GoesOn := by
  have hpending : s.pc.pending = site.pending := by rcases hpc with hpc | hpc <;> rw [hpc] <;> rfl
  have hcandidate : s.pc.candidate = site.candidate := by
    rcases hpc with hpc | hpc <;> rw [hpc] <;> rfl
  have hrunning : ∀ index, site.Unvisited index →
      (s.running[index]?).map Sequence.client = some client →
        ∃ holding ∈ s.holdings, holding.client = client ∧ holding.GoesOn := by
    intro index hunvisited hindex
    obtain ⟨seq, hseq, rfl⟩ := Option.map_eq_some_iff.mp hindex
    have hdone : seq.isDone = false := by
      rcases hpc with hpc | hpc
      · exact hslots.notDone_at hpc hseq hunvisited
      · exact hslots.notDone_at hpc hseq hunvisited
    exact ⟨.running seq, running_mem_holdings.mpr (List.mem_of_getElem? hseq), rfl, hdone⟩
  cases site with
  | removing index => exact hrunning index (Nat.le_refl index) hclient
  | delivering index logits => exact hrunning index (Nat.le_refl index) hclient
  | popped other =>
      have hmem : other ∈ s.pc.pending := hpending ▸ List.mem_singleton_self other
      exact ⟨.waiting other, waiting_mem_holdings (Or.inr hmem), Option.some.inj hclient, trivial⟩
  | allocated seq | prefilled seq =>
      exact ⟨.admitting seq, admitting_mem_holdings hcandidate, Option.some.inj hclient, trivial⟩

omit [Kernels α] in
theorem over_abandon {site : Site α} {other : ClientId}
    (hclient : site.client s.running = some other) (hother : client ≠ other)
    (hover : (abandon site s).Over client) : s.Over client := by
  have hrunning : ∀ index, (s.running[index]?).map Sequence.client = some other →
      ∀ pc, State.Over ((s.updateRunning index Sequence.cancel).goto pc) client → s.Over client := by
    intro index hindex pc
    obtain ⟨seq, hseq, rfl⟩ := Option.map_eq_some_iff.mp hindex
    exact over_of_stopped hseq seq.cancel_client rfl rfl hother
  have hresolved : ∀ entry : Resolved α, entry.client = other →
      (abandon site s).running = s.running →
      (abandon site s).history.resolved = s.history.resolved ++ [entry] → s.Over client := by
    rintro entry rfl hsame hresolved
    refine over_of_resolved (hsame ▸ List.Subset.refl _) hresolved ?_ hover
    rwa [List.map_singleton, List.mem_singleton]
  cases site with
  | removing index => exact hrunning index hclient _ hover
  | delivering index logits => exact hrunning index hclient _ hover
  | popped req => exact hresolved (.request req) (Option.some.inj hclient) rfl rfl
  | allocated seq | prefilled seq =>
      have hsame : seq.cancel.client = other := seq.cancel_client.trans (Option.some.inj hclient)
      exact hresolved (.sequence seq.cancel) hsame rfl rfl

omit [Kernels α] in
/-- A request is given up because nothing more is owed to it. -/
theorem discharged_abandon {site : Site α} {other : ClientId} {counted : List ClientId}
    (hdischarged : Discharged req s) (hidle : s.pc.items = none)
    (hclient : site.client s.running = some other)
    (hunanswered : other = req.client → Unanswered req (s.view req.client))
    (hcounted : counted = [] ∧ (s.clients other).responseDone = true ∨
      counted = [other] ∧ (s.clients other).isClosed = true) :
    Discharged req (abandon site (s.recordCancelled counted)) := by
  have hafter : (abandon site (s.recordCancelled counted)).pc.items = none ∧
      (abandon site (s.recordCancelled counted)).clients = s.clients ∧
      (abandon site (s.recordCancelled counted)).history.updates = s.history.updates ∧
      (abandon site (s.recordCancelled counted)).metrics.cancelledSequences =
        s.metrics.cancelledSequences ++ counted := by
    cases site <;> exact ⟨rfl, rfl, rfl, rfl⟩
  obtain ⟨hidle', hclients, hupdates, hcancelled⟩ := hafter
  have hflight : (abandon site (s.recordCancelled counted)).inFlight req.client =
      s.inFlight req.client := inFlight_idle hidle hidle'
  have hview := view_counted hflight (by rw [hclients]) hupdates hcancelled
  by_cases heq : req.client = other
  · subst heq
    intro _
    rw [hclients]
    rcases hcounted with ⟨rfl, hdone⟩ | ⟨-, hclosed⟩
    · rw [hview]
      exact (hunanswered rfl).ended_of_done hdone
    · apply (hunanswered rfl).ended_of_not_ample
      · rw [hview]
      · intro hample
        rw [hample.isClosed] at hclosed
        cases hclosed
  · have hnone : counted.count req.client = 0 := by
      apply List.count_eq_zero.mpr
      rcases hcounted with ⟨rfl, -⟩ | ⟨rfl, -⟩
      · exact List.not_mem_nil
      · rwa [List.mem_singleton]
    apply hdischarged.keep (.of_eq (congrFun hclients _))
    · rw [hview, hnone]
      rfl
    · exact over_abandon hclient heq

omit [Kernels α] in
/-- A request goes on after a check; a new sequence of `running` is not done. -/
theorem discharged_proceed {site : Site α} (hdischarged : Discharged req s)
    (hidle : s.pc.items = none) (hdone : ∀ seq ∈ site.candidate, seq.isDone = false) :
    Discharged req (proceed site s) := by
  cases site with
  | removing _ | popped _ | allocated _ | delivering _ _ =>
      exact hdischarged.move hidle rfl rfl rfl rfl (over_of_same rfl rfl)
  | prefilled seq =>
      have hnotDone := hdone seq (Option.mem_some_self seq)
      have hover : (proceed (.prefilled seq) s).Over req.client → s.Over req.client := by
        rintro (hentry | ⟨other, hother, hclient, hdone⟩)
        · exact Or.inl hentry
        · rcases List.mem_append.mp hother with hold | hnew
          · exact Or.inr ⟨other, hold, hclient, hdone⟩
          · rw [List.mem_singleton.mp hnew, hnotDone] at hdone
            cases hdone
      exact hdischarged.move hidle rfl rfl rfl rfl hover

omit [Kernels α] in
/-- The done sequences are dropped. -/
theorem discharged_reap (hdischarged : Discharged req s) (hidle : s.pc.items = none)
    (hidle' : s'.pc.items = none) (hclients : s'.clients = s.clients)
    (hupdates : s'.history.updates = s.history.updates)
    (hcancelled : s'.metrics.cancelledSequences = s.metrics.cancelledSequences)
    (hrunning : s'.running = s.running.filter fun seq ↦ !seq.isDone)
    (hresolved : s'.history.resolved =
      s.history.resolved ++ (s.running.filter Sequence.isDone).map .sequence) :
    Discharged req s' := by
  apply hdischarged.move hidle hidle' hclients hupdates hcancelled
  exact over_of_reap (hrunning ▸ List.filter_subset_self _) hresolved

omit [Kernels α] in
theorem discharged_endStep (hdischarged : Discharged req s) (hidle : s.pc.items = none) :
    Discharged req (endStep s) :=
  discharged_reap hdischarged hidle rfl rfl rfl rfl rfl rfl

omit [Kernels α] in
/-- An answered sequence of `running` is failed. -/
theorem discharged_answerAt {index : ℕ} {seq : Sequence α} {message : String} {pc : Pc α}
    (hdischarged : Discharged req s) (hseq : s.running[index]? = some seq)
    (hidle : s.pc.items = none) (hidle' : pc.items = none)
    (hunanswered : seq.client = req.client → Unanswered req (s.view req.client)) :
    Discharged req
      (((s.trySendError seq.client message).updateRunning index Sequence.fail).goto pc) :=
  hdischarged.answer hidle hidle' rfl rfl rfl hunanswered fun hother ↦
    over_of_stopped hseq seq.fail_client rfl rfl hother

omit [Kernels α] in
/-- A request that is answered is dropped. -/
theorem discharged_answered (entry : Resolved α) {message : String}
    (hdischarged : Discharged req s) (hclient : entry.client = client) (hidle : s.pc.items = none) (hidle' : s'.pc.items = none)
    (hclients : s'.clients = (s.trySendError client message).clients)
    (hupdates : s'.history.updates = s.history.updates)
    (hcancelled : s'.metrics.cancelledSequences = s.metrics.cancelledSequences)
    (hunanswered : client = req.client → Unanswered req (s.view req.client))
    (hrunning : s'.running ⊆ s.running)
    (hresolved : s'.history.resolved = s.history.resolved ++ [entry]) : Discharged req s' := by
  apply hdischarged.answer hidle hidle' hclients hupdates hcancelled hunanswered
  intro hother
  apply over_of_resolved hrunning hresolved
  rwa [List.map_singleton, List.mem_singleton, hclient]

omit [Kernels α] in
/-- A delivery goes on, or ends. -/
theorem discharged_sendItems {index : ℕ} {logits : List (LogitRow α)} {items : List StreamItem}
    (hdischarged : Discharged req s) (hpc : s.pc = .sendItems index logits items)
    (hkept : (s.clients req.client).Kept ((sendItems index logits items s).clients req.client)) :
    Discharged req (sendItems index logits items s) := by
  unfold sendItems at hkept ⊢
  cases hseq : s.running[index]? with
  | none =>
      have hview := view_sendItems_end hpc (Or.inl hseq) req.client
      exact hdischarged.keep (.of_eq rfl) hview (over_of_same rfl rfl)
  | some seq =>
      rw [hseq] at hkept
      cases items with
      | nil =>
          have hview := view_sendItems_end hpc (Or.inr rfl) req.client
          exact hdischarged.keep (.of_eq rfl) hview (over_of_same rfl rfl)
      | cons item rest =>
          have hview := view_sendItems hpc hseq req.client
          exact hdischarged.keep hkept hview (over_of_same rfl rfl)

/-- An update goes out as a whole, or the channel could not take it. -/
theorem discharged_update {index : ℕ} {seq stepped after : Sequence α} {row : LogitRow α}
    {tokens : List Token} {delivered : Bool} (hdischarged : Discharged req s)
    (hidle : s.pc.items = none) (hseq : s.running[index]? = some seq)
    (hadvance : seq.advance row = some (tokens, stepped))
    (hgoing : seq.client = req.client → seq.Going req (s.view req.client) ∧ ¬ s.Over req.client)
    (hreserved : (s.clients seq.client).tryReserveMany
      (updateItems tokens stepped.finishReason).length = delivered)
    (hafter : after = if delivered then stepped else stepped.cancel)
    (hitems : s'.pc.items =
      if delivered then some (index, updateItems tokens stepped.finishReason) else none)
    (hrunning : s'.running = s.running.set index after) (hclients : s'.clients = s.clients)
    (hresolved : s'.history.resolved = s.history.resolved)
    (hupdates : s'.history.updates =
      s.history.updates ++ [⟨seq.client, tokens, stepped.finishReason, delivered⟩])
    (hcancelled : s'.metrics.cancelledSequences =
      s.metrics.cancelledSequences ++ if delivered then [] else [seq.client]) :
    Discharged req s' := by
  have hclient : after.client = seq.client := by
    obtain ⟨-, -, -, hclient, -, -, -⟩ := Sequence.advance_frame hadvance
    rw [hafter]
    split
    · exact hclient
    · exact stepped.cancel_client.trans hclient
  obtain ⟨hothers, hview⟩ :=
    view_updated hidle hseq rfl hclient hitems hrunning hclients hupdates hcancelled
  by_cases heq : seq.client = req.client
  · obtain ⟨hgoing, hnotOver⟩ := hgoing heq
    intro hover
    rw [heq] at hview hreserved
    rw [hview, hclients]
    cases delivered with
    | true =>
        have hsame : after = stepped := hafter
        cases hdone : stepped.isDone with
        | true => exact hgoing.ended hadvance hdone _ req.client
        | false =>
            refine absurd (over_of_set hrunning hresolved (fun _ ↦ ?_) hover) hnotOver
            rw [hsame, hdone]
    | false =>
        apply hgoing.unanswered.ended_of_not_ample (List.append_nil _)
        intro hample
        have hsent : (s.clients req.client).sent = (s.view req.client).outgoing := by
          unfold State.view
          rw [inFlight_of_idle hidle, List.append_nil]
        rw [hgoing.room hadvance hsent hample] at hreserved
        cases hreserved
  · apply hdischarged.keep (.of_eq (congrFun hclients _)) (hothers _ (Ne.symm heq))
    exact over_of_set hrunning hresolved fun hsame ↦ absurd (hclient.symm.trans hsame) heq

/-- One row: the update goes out, or the channel could not take it. -/
theorem discharged_sampleToken {index : ℕ} {logits : List (LogitRow α)} (hbooks : Books s)
    (hfollowing : Following scheduler maxSeqLen s) (howns : Owns req s)
    (hdischarged : Discharged req s) (hpc : s.pc = .sampleToken index logits)
    (hdone : ∀ seq, s.running[index]? = some seq → seq.isDone = false) :
    Discharged req (sampleToken index logits s) := by
  have hidle : s.pc.items = none := by rw [hpc]; rfl
  unfold sampleToken
  cases hseq : s.running[index]? with
  | none => exact discharged_endStep hdischarged hidle
  | some seq =>
      have hmem := List.mem_of_getElem? hseq
      have hgoesOn : (Holding.running seq).GoesOn := hdone seq hseq
      have hholding := running_mem_holdings.mpr hmem
      dsimp only
      split
      · exact discharged_answerAt hdischarged hseq hidle rfl fun hclient ↦
          unanswered_of_goesOn hbooks hfollowing howns hholding hclient hgoesOn
      split
      · exact hdischarged.move hidle rfl rfl rfl rfl (over_of_same rfl rfl)
      rename_i row _ _ tokens stepped hadvance
      have hgoing : seq.client = req.client →
          seq.Going req (s.view req.client) ∧ ¬ s.Over req.client := by
        intro hclient
        constructor
        · exact going_of_running hbooks hfollowing howns hmem hclient hgoesOn
        · rw [← hclient]
          exact hbooks.not_over hholding hgoesOn
      cases hreserved :
          (s.clients seq.client).tryReserveMany (updateItems tokens stepped.finishReason).length with
      | true =>
          exact discharged_update hdischarged hidle hseq hadvance hgoing hreserved rfl rfl rfl rfl
            rfl rfl (List.append_nil _).symm
      | false =>
          exact discharged_update hdischarged hidle hseq hadvance hgoing hreserved rfl rfl rfl rfl
            rfl rfl rfl

omit [Kernels α] in
theorem discharged_admitRequest {other : GenerationRequest α} (hdischarged : Discharged req s)
    (hpc : s.pc = .admitRequest other)
    (hunanswered : other.client = req.client → Unanswered req (s.view req.client)) :
    Discharged req (admitRequest scheduler other s) := by
  have hidle : s.pc.items = none := by rw [hpc]; rfl
  unfold admitRequest
  split
  · exact discharged_answered (.request other) hdischarged rfl hidle rfl rfl rfl rfl hunanswered
      (List.Subset.refl _) rfl
  · split
    · exact discharged_answered (.request other) hdischarged rfl hidle rfl rfl rfl rfl hunanswered
        (List.Subset.refl _) rfl
    · exact hdischarged.move hidle rfl rfl rfl rfl (over_of_same rfl rfl)

theorem discharged_prefill {seq : Sequence α} (hdischarged : Discharged req s)
    (hpc : s.pc = .prefill seq)
    (hunanswered : seq.client = req.client → Unanswered req (s.view req.client)) :
    Discharged req (prefill scheduler seq s) := by
  have hidle : s.pc.items = none := by rw [hpc]; rfl
  unfold prefill
  split
  · exact discharged_answered (.sequence seq.fail) hdischarged seq.fail_client hidle rfl rfl rfl rfl
      hunanswered (List.Subset.refl _) rfl
  · exact hdischarged.move hidle rfl rfl rfl rfl (over_of_same rfl rfl)

omit [Kernels α] in
theorem discharged_evictAt {index : ℕ} (hdischarged : Discharged req s) (hpc : s.pc = .evict index)
    (hunanswered : ∀ seq, s.running[index]? = some seq → seq.client = req.client →
      Unanswered req (s.view req.client)) : Discharged req (evictAt scheduler index s) := by
  have hidle : s.pc.items = none := by rw [hpc]; rfl
  unfold evictAt
  split
  · refine discharged_reap hdischarged hidle ?_ rfl rfl rfl rfl rfl
    dsimp only [State.goto]
    split <;> rfl
  · rename_i seq hseq
    dsimp only
    split
    · exact discharged_answerAt hdischarged hseq hidle rfl (hunanswered seq hseq)
    · exact hdischarged.move hidle rfl rfl rfl rfl (over_of_same rfl rfl)

omit [Kernels α] in
theorem discharged_failBatchAt {index : ℕ} {message : String} (hdischarged : Discharged req s)
    (hpc : s.pc = .failBatch index message)
    (hunanswered : ∀ seq, s.running[index]? = some seq → seq.client = req.client →
      Unanswered req (s.view req.client)) : Discharged req (failBatchAt index message s) := by
  have hidle : s.pc.items = none := by rw [hpc]; rfl
  unfold failBatchAt
  split
  · exact discharged_endStep hdischarged hidle
  · rename_i seq hseq
    exact discharged_answerAt hdischarged hseq hidle rfl (hunanswered seq hseq)

omit [Kernels α] in
theorem discharged_answerQueued {drained : List (GenerationRequest α)}
    (hdischarged : Discharged req s) (hpc : s.pc = .answerQueued drained)
    (hunanswered : ∀ other ∈ drained, other.client = req.client →
      Unanswered req (s.view req.client)) : Discharged req (answerQueued drained s) := by
  have hidle : s.pc.items = none := by rw [hpc]; rfl
  cases drained with
  | nil => exact hdischarged.move hidle rfl rfl rfl rfl (over_of_same rfl rfl)
  | cons other rest =>
      exact discharged_answered (.request other) hdischarged rfl hidle rfl rfl rfl rfl
        (hunanswered other List.mem_cons_self) (List.Subset.refl _) rfl

omit [Kernels α] in
theorem discharged_answerRunning (hdischarged : Discharged req s) (hpc : s.pc = .answerRunning)
    (hunanswered : ∀ seq ∈ s.running, seq.client = req.client →
      Unanswered req (s.view req.client)) : Discharged req (answerRunning s) := by
  have hidle : s.pc.items = none := by rw [hpc]; rfl
  unfold answerRunning
  split
  · exact hdischarged.move hidle rfl rfl rfl rfl (over_of_same rfl rfl)
  · rename_i seq rest hrunning
    rw [hrunning] at hunanswered
    refine discharged_answered (.sequence seq) hdischarged rfl hidle rfl rfl rfl rfl
      (hunanswered seq List.mem_cons_self) ?_ rfl
    rw [hrunning]
    exact List.subset_cons_self seq rest

/-- **Every step of the scheduler discharges what it ends.** -/
theorem discharged_schedStep {late : List ClientId} (hbooks : Books s)
    (hslots : Slots scheduler origin s.pc s.running s.kvCache)
    (hplaced : Placed s.pc s.running s.queue) (hfollowing : Following scheduler maxSeqLen s)
    (howns : Owns req s) (hdischarged : Discharged req s)
    (hstep : SchedStep scheduler late s s') : Discharged req s' := by
  have hkept := (effect_schedStep hstep).writes.kept req.client
  have hidle : ∀ {pc : Pc α}, s.pc = pc → pc.items = none → s.pc.items = none := by
    rintro pc rfl hnone
    exact hnone
  have howed : ∀ holding ∈ s.holdings, holding.GoesOn → holding.client = req.client →
      Unanswered req (s.view req.client) := fun _ hholding hgoesOn hclient ↦
    unanswered_of_goesOn hbooks hfollowing howns hholding hclient hgoesOn
  have hrunning : ∀ seq ∈ s.running, seq.isDone = false → seq.client = req.client →
      Unanswered req (s.view req.client) :=
    fun seq hseq hdone ↦ howed _ (running_mem_holdings.mpr hseq) hdone
  have hindex : ∀ {pc : Pc α} {index : ℕ}, s.pc = pc → pc.Unvisited index → ∀ seq,
      s.running[index]? = some seq → seq.client = req.client → Unanswered req (s.view req.client) :=
    fun hpc hunvisited seq hseq ↦
      hrunning seq (List.mem_of_getElem? hseq) (hslots.notDone_at hpc hseq hunvisited)
  have hpending : ∀ other ∈ s.pc.pending, other.client = req.client →
      Unanswered req (s.view req.client) :=
    fun _ hother ↦ howed _ (waiting_mem_holdings (Or.inr hother)) trivial
  have hmoved : ∀ {pc : Pc α} {after : State α}, s.pc = pc → pc.items = none →
      after.pc.items = none → after.clients = s.clients →
      after.history.updates = s.history.updates →
      after.metrics.cancelledSequences = s.metrics.cancelledSequences →
      after.running = s.running → after.history.resolved = s.history.resolved →
        Discharged req after := fun hpc hbefore hafter hclients hupdates hcancelled hsame hresolved ↦
    hdischarged.move (hidle hpc hbefore) hafter hclients hupdates hcancelled
      (over_of_same hsame hresolved)
  cases hstep with
  | stop hpc _ | enter hpc | responseWanted hpc _ _ | full hpc | park hpc _ | resume hpc
  | wake hpc _ | closeQueue hpc => exact hmoved hpc rfl rfl rfl rfl rfl rfl rfl
  | @endLoop site hpc _ =>
      cases site <;> exact discharged_reap hdischarged (hidle hpc rfl) rfl rfl rfl rfl rfl rfl
  | @responseDone site client hpc hclient hdone =>
      obtain ⟨holding, hholding, rfl, hgoesOn⟩ := holding_of_site hslots (Or.inl hpc) hclient
      have habandon : Discharged req (abandon site (s.recordCancelled [])) :=
        discharged_abandon hdischarged (hidle hpc rfl) hclient (howed holding hholding hgoesOn)
          (Or.inl ⟨rfl, hdone⟩)
      rwa [recordCancelled_nil] at habandon
  | @closed site client hpc hclosed =>
      have hclient : site.client s.running = some client := by
        rw [hpc] at hplaced
        exact hplaced
      obtain ⟨holding, hholding, rfl, hgoesOn⟩ := holding_of_site hslots (Or.inr hpc) hclient
      exact discharged_abandon hdischarged (hidle hpc rfl) hclient (howed holding hholding hgoesOn)
        (Or.inr ⟨rfl, hclosed⟩)
  | @stillOpen site client hpc _ =>
      refine discharged_proceed hdischarged (hidle hpc rfl) fun seq hseq ↦ ?_
      apply hslots.candidate_notDone
      rw [hpc]
      exact hseq
  | @tryPop hpc _ =>
      unfold tryPop
      split <;> exact hdischarged.prune hbooks (inFlight_idle (hidle hpc rfl) rfl) rfl rfl rfl rfl rfl
  | @admitRequest other hpc =>
      apply discharged_admitRequest hdischarged hpc
      apply hpending
      rw [hpc]
      exact List.mem_singleton_self other
  | @prefill seq hpc =>
      have hcandidate : s.pc.candidate = some seq := by rw [hpc]; rfl
      exact discharged_prefill hdischarged hpc (howed _ (admitting_mem_holdings hcandidate) trivial)
  | @evict index hpc =>
      exact discharged_evictAt hdischarged hpc (hindex hpc (Nat.le_refl index))
  | forward hpc =>
      unfold forward
      split <;> exact hmoved hpc rfl rfl rfl rfl rfl rfl rfl
  | @failBatch index message hpc =>
      exact discharged_failBatchAt hdischarged hpc (hindex hpc (Nat.le_refl index))
  | @sampleToken index logits hpc =>
      exact discharged_sampleToken hbooks hfollowing howns hdischarged hpc
        (fun _ hseq ↦ hslots.notDone_at hpc hseq (Nat.le_refl index))
  | sendItems hpc => exact discharged_sendItems hdischarged hpc hkept
  | @answerQueued drained hpc =>
      have hdrained : s.pc.pending = drained := by rw [hpc]; rfl
      exact discharged_answerQueued hdischarged hpc (hdrained ▸ hpending)
  | answerRunning hpc =>
      apply discharged_answerRunning hdischarged hpc
      intro seq hseq
      apply hrunning seq hseq
      apply hslots.all_notDone _ seq hseq
      rw [hpc]
      exact fun _ ↦ trivial

/-- **Nobody else can undo it.** -/
theorem discharged_step {action : Action α} (hbooks : Books s)
    (hslots : Slots scheduler origin s.pc s.running s.kvCache)
    (hplaced : Placed s.pc s.running s.queue) (hfollowing : Following scheduler maxSeqLen s)
    (howns : Owns req s) (hdischarged : Discharged req s)
    (hstep : step scheduler action s = some s') : Discharged req s' := by
  cases step_cases hstep with
  | sched hsched =>
      exact discharged_schedStep hbooks hslots hplaced hfollowing howns hdischarged hsched
  | schedShutdown hpc _ =>
      have hidle : s.pc.items = none := by
        rcases hpc with hpc | hpc <;> rw [hpc] <;> rfl
      exact hdischarged.move hidle rfl rfl rfl rfl (over_of_same rfl rfl)
  | refuse _ _ | accept _ _ _ => exact hdischarged.prune hbooks rfl rfl rfl rfl rfl rfl
  | notify _ | shutdown => exact hdischarged.keep (.of_eq rfl) rfl (over_of_same rfl rfl)
  | @client client action after hact =>
      have hview : State.view { s with clients := Function.update s.clients client after }
          req.client = s.view req.client := view_congr rfl (sent_of_act hact req.client) rfl rfl
      by_cases heq : req.client = client
      · subst heq
        intro hover
        rw [hview]
        change Ended req (Function.update s.clients req.client after req.client) _
        rw [Function.update_self]
        exact (hdischarged (over_of_same rfl rfl hover)).congr (Client.Ample.of_act hact)
          (Client.act_signals hact).2
      · exact hdischarged.keep (.of_eq (Function.update_of_ne heq _ _)) hview (over_of_same rfl rfl)

/-- Only a request that goes on is sent an error. -/
theorem goesOn_of_answering (hslots : Slots scheduler origin s.pc s.running s.kvCache)
    (hanswering : s.answering scheduler = some client) :
    s.pc.items = none ∧ ∃ holding ∈ s.holdings, holding.client = client ∧ holding.GoesOn := by
  have hrunning : ∀ {index : ℕ} {seq : Sequence α}, s.pc.Unvisited index →
      s.running[index]? = some seq → seq.client = client →
        ∃ holding ∈ s.holdings, holding.client = client ∧ holding.GoesOn := by
    intro index seq hunvisited hseq hclient
    exact ⟨.running seq, running_mem_holdings.mpr (List.mem_of_getElem? hseq), hclient,
      hslots.notDone index seq hunvisited hseq⟩
  have hpending : ∀ {other : GenerationRequest α}, other ∈ s.pc.pending → other.client = client →
      ∃ holding ∈ s.holdings, holding.client = client ∧ holding.GoesOn := fun hother hclient ↦
    ⟨.waiting _, waiting_mem_holdings (Or.inr hother), hclient, trivial⟩
  unfold State.answering at hanswering
  cases hpc : s.pc with
  | admitRequest other =>
      rw [hpc] at hanswering hpending
      dsimp only at hanswering
      split at hanswering
      · cases hanswering
      · exact ⟨rfl, hpending (List.mem_singleton_self other) (Option.some.inj hanswering)⟩
  | prefill seq =>
      have hcandidate : s.pc.candidate = some seq := by rw [hpc]; rfl
      rw [hpc] at hanswering
      dsimp only at hanswering
      split at hanswering
      · exact ⟨rfl, .admitting seq, admitting_mem_holdings hcandidate, Option.some.inj hanswering,
          trivial⟩
      · cases hanswering
  | evict index =>
      rw [hpc] at hanswering hrunning
      dsimp only at hanswering
      split at hanswering
      · rename_i seq hseq
        split at hanswering
        · exact ⟨rfl, hrunning (Nat.le_refl index) hseq (Option.some.inj hanswering)⟩
        · cases hanswering
      · cases hanswering
  | failBatch index message =>
      rw [hpc] at hanswering hrunning
      obtain ⟨seq, hseq, hclient⟩ := Option.map_eq_some_iff.mp hanswering
      exact ⟨rfl, hrunning (Nat.le_refl index) hseq hclient⟩
  | sampleToken index logits =>
      rw [hpc] at hanswering hrunning
      dsimp only at hanswering
      split at hanswering
      · rename_i seq _ hseq _
        exact ⟨rfl, hrunning (Nat.le_refl index) hseq (Option.some.inj hanswering)⟩
      · cases hanswering
  | answerQueued drained =>
      rw [hpc] at hanswering hpending
      obtain ⟨other, hother, hclient⟩ := Option.map_eq_some_iff.mp hanswering
      exact ⟨rfl, hpending (List.mem_of_mem_head? hother) hclient⟩
  | answerRunning =>
      rw [hpc] at hanswering hrunning
      obtain ⟨seq, hseq, hclient⟩ := Option.map_eq_some_iff.mp hanswering
      rw [List.head?_eq_getElem?] at hseq
      exact ⟨rfl, hrunning trivial hseq hclient⟩
  | _ =>
      rw [hpc] at hanswering
      cases hanswering

/-- The channel of this request is its own. -/
def SubmitsOnly (req : GenerationRequest α) : State α → Action α → Prop
  | _, .submit other _ => other.client = req.client → other = req
  | _, _ => True

theorem owns_step {action : Action α} (howns : Owns req s) (honly : SubmitsOnly req s action)
    (hstep : step scheduler action s = some s') : Owns req s' := by
  cases step_cases hstep with
  | sched hsched =>
      unfold Owns
      rw [(effect_schedStep hsched).accepted_eq]
      exact howns
  | @accept other late _ _ _ =>
      intro entry hentry
      rcases List.mem_append.mp hentry with hold | hnew
      · exact howns entry hold
      · obtain rfl := List.mem_singleton.mp hnew
        exact honly
  | schedShutdown _ _ | refuse _ _ | notify _ | client _ | shutdown => exact howns

/-- The size of a channel never changes. -/
theorem capacity_step {action : Action α} (hstep : step scheduler action s = some s')
    (client : ClientId) : (s'.clients client).capacity = (s.clients client).capacity := by
  cases step_cases hstep with
  | sched hsched => exact ((effect_schedStep hsched).writes.kept client).capacity
  | schedShutdown _ _ | refuse _ _ | accept _ _ _ | notify _ | shutdown => rfl
  | @client other action after hact =>
      change (Function.update s.clients other after client).capacity = _
      by_cases heq : client = other
      · subst heq
        rw [Function.update_self]
        exact Client.act_capacity hact
      · rw [Function.update_of_ne heq]

end Step

section Run

variable [Kernels α] {scheduler : Scheduler α} {origin : SlabKvCache (KvTensor α)}
  {req : GenerationRequest α}
  {maxSeqs maxSeqLen numLayers nHeads headDim maxDepth : ℕ} {capacity : ClientId → ℕ}
  {allowed : State α → Action α → Prop}

theorem capacity_reachable {kvCache : SlabKvCache (KvTensor α)}
    (hreach : Reaches scheduler allowed (init kvCache maxDepth capacity) s) (client : ClientId) :
    (s.clients client).capacity = capacity client := by
  induction hreach with
  | refl => rfl
  | step _ _ hnext ih => exact (capacity_step hnext client).trans ih

theorem owns_reachable {kvCache : SlabKvCache (KvTensor α)}
    (hreach : Reaches scheduler (SubmitsOnly req) (init kvCache maxDepth capacity) s) :
    Owns req s := by
  have hstart : Owns req (init kvCache maxDepth capacity) :=
    fun _ hentry ↦ absurd hentry List.not_mem_nil
  refine hreach.invariant ?_ hstart
  intro before after action _ howns honly hnext
  exact owns_step howns honly hnext

/-- **A request is discharged in every run in which its channel is its own.** -/
theorem discharged_reachable
    (hreach : Reaches scheduler (SubmitsOnly req)
      (init (.new maxSeqs maxSeqLen numLayers nHeads headDim) maxDepth capacity) s) :
    Discharged req s := by
  refine hreach.invariant ?_ ?_
  · intro before after action hbefore hdischarged _ hnext
    exact discharged_step (books_reachable hbefore) (slots_reachable hbefore)
      (placed_reachable hbefore) (following_reachable hbefore) (owns_reachable hbefore) hdischarged
      hnext
  · rintro (⟨entry, hentry, -⟩ | ⟨seq, hseq, -⟩)
    · exact absurd hentry List.not_mem_nil
    · exact absurd hseq List.not_mem_nil

/-- Nothing makes the scheduler panic. -/
theorem never_panicked
    (hreach : Reaches scheduler allowed
      (init (.new maxSeqs maxSeqLen numLayers nHeads headDim) maxDepth capacity) s) :
    s.pc ≠ .panicked := by
  induction hreach with
  | refl => exact nofun
  | step hbefore _ hnext ih =>
      intro hpanicked
      cases step_cases hnext with
      | sched hsched =>
          obtain ⟨index, logits, seq, row, hpc, hseq, hadvance⟩ :=
            (effect_schedStep hsched).panics hpanicked
          have hadvances := advances_of_following (slots_reachable hbefore)
            (following_reachable hbefore) hpc seq hseq row
          rw [hadvance] at hadvances
          cases hadvances
      | schedShutdown _ _ => cases hpanicked
      | refuse _ _ | accept _ _ _ | notify _ | client _ | shutdown => exact ih hpanicked

end Run

end Scheduler

end HotBatch
