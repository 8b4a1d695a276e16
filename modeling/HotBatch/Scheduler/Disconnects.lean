import HotBatch.Scheduler.Protocol

/-!
# What is counted as a disconnect

The scheduler reads `response_done` of a request and then its receiver, and it hands an update to the
channel without reading `response_done` once more. A connection that has found a textual stop cancels
`response_done` and then drops its receiver. It is counted as disconnected if the receiver goes
between two such reads, and also if an update finds no room; otherwise it is not.
-/

namespace HotBatch

variable {α : Type}

/-- The messages of the update that a row of the logits leads to. -/
def Sequence.due [Floats α] (logits : List (LogitRow α)) (index : ℕ) (seq : Sequence α) :
    List StreamItem :=
  match logitRow logits index with
  | .error _ => []
  | .ok row =>
      match seq.advance row with
      | none => []
      | some (tokens, stepped) => updateItems tokens stepped.finishReason

def StreamItem.isToken : StreamItem → Bool
  | .token _ => true
  | .finished _ | .error _ => false

/-- A stop is found in a token; `response_done` is cancelled then, and the receiver is dropped after
that. -/
def Client.InOrder (client : Client) : ClientAction → Prop
  | .recv => True
  | .cancelDone => (client.sent.take client.received).any StreamItem.isToken = true
  | .dropReceiver => client.responseDone = true

instance (client : Client) (action : ClientAction) : Decidable (client.InOrder action) :=
  match action with
  | .recv => isTrue trivial
  | .cancelDone | .dropReceiver => instDecidableEqBool _ _

/-- Both signals of a connection that acts in order. -/
structure Client.Orderly (client : Client) : Prop where
  done_of_closed : client.receiverOpen = false → client.responseDone = true
  sent_of_done : client.responseDone = true → client.sent ≠ []

theorem Client.orderly_new (capacity : ℕ) : (Client.new capacity).Orderly :=
  ⟨fun hclosed ↦ (nomatch hclosed), fun hdone ↦ (nomatch hdone)⟩

theorem Client.Orderly.act {client client' : Client} {action : ClientAction}
    (horderly : client.Orderly) (hinOrder : client.InOrder action)
    (hact : client.act action = some client') : client'.Orderly := by
  cases action with
  | recv =>
      obtain ⟨rfl, -⟩ := act_recv hact
      exact ⟨horderly.done_of_closed, horderly.sent_of_done⟩
  | cancelDone =>
      obtain rfl := Option.some.inj hact
      obtain ⟨item, hitem, -⟩ := List.any_eq_true.mp hinOrder
      exact ⟨fun _ ↦ rfl, fun _ ↦ List.ne_nil_of_mem (List.mem_of_mem_take hitem)⟩
  | dropReceiver =>
      obtain rfl := Option.some.inj hact
      exact ⟨fun _ ↦ hinOrder, horderly.sent_of_done⟩

namespace Scheduler

variable [Kernels α]

/-- The update that the scheduler is about to hand to this client. -/
def State.due (s : State α) (client : ClientId) : List StreamItem :=
  match s.pc with
  | .sampleToken index logits =>
      match s.running[index]? with
      | some seq => if seq.client = client then seq.due logits index else []
      | none => []
  | _ => []

/-- The client whose receiver is about to be looked at. -/
def Pc.reading : Pc α → Option ClientId
  | checkClosed _ client => some client
  | _ => none

/-- `response_done` of this client has been read, and its receiver is about to be read. -/
def State.BetweenReads (s : State α) (client : ClientId) : Prop :=
  s.pc.reading = some client ∨ s.due client ≠ []

instance (s : State α) (client : ClientId) : Decidable (s.BetweenReads client) :=
  inferInstanceAs (Decidable (_ ∨ _))

/-- The connection of this client acts in order; the others do what they like. -/
def StopsInOrder (client : ClientId) (s : State α) : Action α → Prop
  | .client other action => other = client → (s.clients client).InOrder action
  | .sched _ | .schedShutdown | .submit _ _ | .notify | .shutdown => True

/-- The receiver of this client does not go between two reads, and its updates find room. -/
def Unraced (client : ClientId) (s : State α) : Action α → Prop
  | .client other .dropReceiver => other = client → ¬ s.BetweenReads client
  | .sched _ => (s.due client).length ≤ (s.clients client).room
  | .client _ _ | .schedShutdown | .submit _ _ | .notify | .shutdown => True

instance (client : ClientId) (s : State α) (action : Action α) :
    Decidable (StopsInOrder client s action) :=
  match action with
  | .client other _ => inferInstanceAs (Decidable (other = client → _))
  | .sched _ | .schedShutdown | .submit _ _ | .notify | .shutdown => isTrue trivial

instance (client : ClientId) (s : State α) (action : Action α) :
    Decidable (Unraced client s action) :=
  match action with
  | .client other .dropReceiver => inferInstanceAs (Decidable (other = client → ¬ _))
  | .sched _ => inferInstanceAs (Decidable (_ ≤ _))
  | .client _ .recv | .client _ .cancelDone | .schedShutdown | .submit _ _ | .notify | .shutdown =>
      isTrue trivial

variable {scheduler : Scheduler α} {s s' : State α} {client : ClientId}

section Quiet

omit [Kernels α]

/-- A step that is none of this client's business, up to messages on its channel. -/
structure Quiet (client : ClientId) (s s' : State α) : Prop where
  receiverOpen : (s'.clients client).receiverOpen = (s.clients client).receiverOpen
  responseDone : (s'.clients client).responseDone = (s.clients client).responseDone
  sent : (s.clients client).sent ⊆ (s'.clients client).sent
  cancelled : s'.metrics.cancelledSequences.count client =
    s.metrics.cancelledSequences.count client

/-- Others are counted. -/
theorem quiet_counted {counted : List ClientId} (hnot : client ∉ counted)
    (hclients : s'.clients = s.clients)
    (hcancelled : s'.metrics.cancelledSequences = s.metrics.cancelledSequences ++ counted) :
    Quiet client s s' := by
  constructor
  · rw [hclients]
  · rw [hclients]
  · rw [hclients]
    exact List.Subset.refl _
  · rw [hcancelled, List.count_append, List.count_eq_zero.mpr hnot, Nat.add_zero]

theorem quiet_of_clients (hclients : s'.clients = s.clients)
    (hcancelled : s'.metrics.cancelledSequences = s.metrics.cancelledSequences) :
    Quiet client s s' :=
  quiet_counted List.not_mem_nil hclients (hcancelled.trans (List.append_nil _).symm)

/-- A channel that is written to keeps its signals. -/
theorem quiet_updateClient {other : ClientId} {f : Client → Client}
    (hopen : ∀ client, (f client).receiverOpen = client.receiverOpen)
    (hdone : ∀ client, (f client).responseDone = client.responseDone)
    (hsent : ∀ client : Client, client.sent ⊆ (f client).sent)
    (hclients : s'.clients = (s.updateClient other f).clients)
    (hcancelled : s'.metrics.cancelledSequences = s.metrics.cancelledSequences) :
    Quiet client s s' := by
  by_cases heq : client = other
  · subst heq
    constructor
    · rw [hclients, clients_updateClient_self, hopen]
    · rw [hclients, clients_updateClient_self, hdone]
    · rw [hclients, clients_updateClient_self]
      exact hsent _
    · rw [hcancelled]
  · constructor
    · rw [hclients, clients_updateClient_of_ne heq]
    · rw [hclients, clients_updateClient_of_ne heq]
    · rw [hclients, clients_updateClient_of_ne heq]
      exact List.Subset.refl _
    · rw [hcancelled]

theorem quiet_answer {other : ClientId} {message : String}
    (hclients : s'.clients = (s.trySendError other message).clients)
    (hcancelled : s'.metrics.cancelledSequences = s.metrics.cancelledSequences) :
    Quiet client s s' := by
  apply quiet_updateClient _ _ _ hclients hcancelled
  · exact Client.trySend_receiverOpen _
  · exact Client.trySend_responseDone _
  · intro client
    rcases client.trySend_sent (.error message) with hsame | hmore
    · exact hsame.symm ▸ List.Subset.refl _
    · exact hmore.symm ▸ List.subset_append_left _ _

end Quiet

/-- Nothing of this client is about to be read. -/
def Pc.IsElsewhere : Pc α → Prop
  | checkClosed _ _ | sampleToken _ _ => False
  | _ => True

theorem not_betweenReads (hpc : s.pc.IsElsewhere) : ¬ s.BetweenReads client := by
  intro hbetween
  unfold State.BetweenReads Pc.reading State.due at hbetween
  cases hsame : s.pc with
  | checkClosed _ _ | sampleToken _ _ =>
      rw [hsame] at hpc
      exact hpc
  | _ => simp [hsame] at hbetween

/-- The client has not been counted, and its receiver is not dropped between two reads. -/
structure Uncounted (client : ClientId) (s : State α) : Prop where
  cancelled : s.metrics.cancelledSequences.count client = 0
  orderly : (s.clients client).Orderly
  open_of_betweenReads : s.BetweenReads client → (s.clients client).receiverOpen = true

namespace Uncounted

theorem quiet (huncounted : Uncounted client s) (hquiet : Quiet client s s')
    (hbetween : s'.BetweenReads client → (s.clients client).receiverOpen = true) :
    Uncounted client s' where
  cancelled := hquiet.cancelled.trans huncounted.cancelled
  orderly := by
    constructor
    · rw [hquiet.receiverOpen, hquiet.responseDone]
      exact huncounted.orderly.done_of_closed
    · rw [hquiet.responseDone]
      intro hdone hnothing
      have hbefore := hquiet.sent
      rw [hnothing, List.subset_nil] at hbefore
      exact huncounted.orderly.sent_of_done hdone hbefore
  open_of_betweenReads := by
    rw [hquiet.receiverOpen]
    exact hbetween

/-- The scheduler has gone on to where it reads nothing. -/
theorem elsewhere (huncounted : Uncounted client s) (hquiet : Quiet client s s')
    (hpc : s'.pc.IsElsewhere) : Uncounted client s' :=
  huncounted.quiet hquiet fun hbetween ↦ absurd hbetween (not_betweenReads hpc)

/-- A request of the queue is not thrown out: its connection has not got any token. -/
theorem not_pruned (huncounted : Uncounted client s) (hbooks : Books s) (late : List ClientId) :
    client ∉ (s.queue.pruned (s.isOpen late)).map GenerationRequest.client := by
  intro hpruned
  obtain ⟨req, hreq, rfl⟩ := List.mem_map.mp hpruned
  obtain ⟨hqueued, hgone⟩ := List.mem_filter.mp hreq
  have hclosed : (s.clients req.client).receiverOpen = false := by
    unfold State.isOpen Client.isClosed at hgone
    simp only [Bool.not_or, Bool.not_not, Bool.and_eq_true, Bool.not_eq_true'] at hgone
    exact hgone.1
  have hsent := huncounted.orderly.sent_of_done (huncounted.orderly.done_of_closed hclosed)
  have hblank : s.view req.client = .blank :=
    hbooks.agrees _ (waiting_mem_holdings (Or.inl hqueued))
  have hnothing : (s.clients req.client).sent ++ s.inFlight req.client = [] :=
    congrArg View.outgoing hblank
  exact hsent (List.append_eq_nil_iff.mp hnothing).1

theorem prune (huncounted : Uncounted client s) (hbooks : Books s) (late : List ClientId)
    (hpc : s'.pc.IsElsewhere ∨ s'.pc = s.pc ∧ s'.running = s.running)
    (hclients : s'.clients = s.clients)
    (hcancelled : s'.metrics.cancelledSequences = s.metrics.cancelledSequences ++
      (s.queue.pruned (s.isOpen late)).map GenerationRequest.client) : Uncounted client s' := by
  have hquiet : Quiet client s s' :=
    quiet_counted (huncounted.not_pruned hbooks late) hclients hcancelled
  rcases hpc with helsewhere | ⟨hsame, hrunning⟩
  · exact huncounted.elsewhere hquiet helsewhere
  · apply huncounted.quiet hquiet
    unfold State.BetweenReads State.due
    rw [hsame, hrunning]
    exact huncounted.open_of_betweenReads

end Uncounted

omit [Kernels α] in
theorem clients_abandon (site : Site α) (s : State α) :
    (abandon site s).clients = s.clients ∧
      (abandon site s).metrics.cancelledSequences = s.metrics.cancelledSequences ∧
      (abandon site s).pc.IsElsewhere := by
  cases site <;> exact ⟨rfl, rfl, trivial⟩

theorem due_sampleToken {index : ℕ} {logits : List (LogitRow α)} {seq : Sequence α}
    (hpc : s.pc = .sampleToken index logits) (hseq : s.running[index]? = some seq) :
    s.due client = if seq.client = client then seq.due logits index else [] := by
  unfold State.due
  rw [hpc]
  dsimp only
  rw [hseq]

/-- An update to this client goes out, and one to another is none of its business. -/
theorem uncounted_sampleToken {index : ℕ} {logits : List (LogitRow α)}
    (hpc : s.pc = .sampleToken index logits) (huncounted : Uncounted client s)
    (hroom : (s.due client).length ≤ (s.clients client).room) :
    Uncounted client (sampleToken index logits s) := by
  unfold sampleToken
  cases hseq : s.running[index]? with
  | none => exact huncounted.elsewhere (quiet_of_clients rfl rfl) trivial
  | some seq =>
      have hdue : s.due client = if seq.client = client then seq.due logits index else [] :=
        due_sampleToken hpc hseq
      dsimp only
      cases hrow : logitRow logits index with
      | error err => exact huncounted.elsewhere (quiet_answer rfl rfl) trivial
      | ok row =>
          dsimp only
          cases hadvance : seq.advance row with
          | none => exact huncounted.elsewhere (quiet_of_clients rfl rfl) trivial
          | some result =>
              obtain ⟨tokens, stepped⟩ := result
              have hitems : seq.due logits index = updateItems tokens stepped.finishReason := by
                unfold Sequence.due
                rw [hrow]
                dsimp only
                rw [hadvance]
              dsimp only
              split
              · exact huncounted.elsewhere (quiet_of_clients rfl rfl) trivial
              · rename_i hrefused
                have hother : client ∉ [seq.client] := by
                  intro hmem
                  obtain rfl := List.mem_singleton.mp hmem
                  rw [if_pos rfl, hitems] at hdue
                  rw [hdue] at hroom
                  refine hrefused (Client.tryReserveMany_length.mpr fun hsome ↦ ⟨?_, hroom⟩)
                  exact huncounted.open_of_betweenReads (Or.inr (hdue.symm ▸ hsome))
                exact huncounted.elsewhere (quiet_counted hother rfl rfl) trivial

/-- A receiver that is found gone is not this client's. -/
theorem uncounted_closed {site : Site α} {other : ClientId} (huncounted : Uncounted client s)
    (hpc : s.pc = .checkClosed site other) (hclosed : (s.clients other).isClosed = true) :
    Uncounted client (abandon site (s.recordCancelled [other])) := by
  have hother : client ∉ [other] := by
    intro hmem
    obtain rfl := List.mem_singleton.mp hmem
    unfold Client.isClosed at hclosed
    rw [huncounted.open_of_betweenReads (Or.inl (by rw [hpc]; rfl))] at hclosed
    cases hclosed
  obtain ⟨hclients, hcancelled, hafter⟩ := clients_abandon site (s.recordCancelled [other])
  exact huncounted.elsewhere (quiet_counted hother hclients hcancelled) hafter

/-- The receiver is there when the update that is sampled next becomes due. -/
theorem uncounted_proceed {site : Site α} {other : ClientId} (huncounted : Uncounted client s)
    (hplaced : Placed s.pc s.running s.queue) (hpc : s.pc = .checkClosed site other)
    (hopen : (s.clients other).isClosed = false) : Uncounted client (proceed site s) := by
  rw [hpc] at hplaced
  cases site with
  | delivering index logits =>
      refine huncounted.quiet (quiet_of_clients rfl rfl) ?_
      rintro (hreading | hdue)
      · cases hreading
      · obtain ⟨seq, hseq, rfl⟩ := Option.map_eq_some_iff.mp hplaced
        have hafter : (proceed (.delivering index logits) s).due client =
            if seq.client = client then seq.due logits index else [] := due_sampleToken rfl hseq
        rw [hafter] at hdue
        obtain rfl : seq.client = client := by
          by_contra hne
          rw [if_neg hne] at hdue
          exact hdue rfl
        unfold Client.isClosed at hopen
        simpa using hopen
  | removing _ | popped _ | allocated _ | prefilled _ =>
      exact huncounted.elsewhere (quiet_of_clients rfl rfl) trivial

/-- **A step of the scheduler does not count an orderly client whose updates find room.** -/
theorem uncounted_schedStep {late : List ClientId} (hplaced : Placed s.pc s.running s.queue)
    (hbooks : Books s) (huncounted : Uncounted client s)
    (hroom : (s.due client).length ≤ (s.clients client).room)
    (hstep : SchedStep scheduler late s s') : Uncounted client s' := by
  have hsame : ∀ {after : State α}, after.clients = s.clients →
      after.metrics.cancelledSequences = s.metrics.cancelledSequences → after.pc.IsElsewhere →
        Uncounted client after :=
    fun hclients hcancelled hpc ↦
      huncounted.elsewhere (quiet_of_clients hclients hcancelled) hpc
  cases hstep with
  | stop _ _ => exact hsame rfl rfl trivial
  | enter _ => exact hsame rfl rfl trivial
  | @endLoop site _ _ => cases site <;> exact hsame rfl rfl trivial
  | @responseDone site _ _ _ _ =>
      obtain ⟨hclients, hcancelled, hpc⟩ := clients_abandon site s
      exact hsame hclients hcancelled hpc
  | @responseWanted site other _ _ hdone =>
      refine huncounted.quiet (quiet_of_clients rfl rfl) ?_
      rintro (hreading | hdue)
      · obtain rfl := Option.some.inj hreading
        by_contra hclosed
        rw [huncounted.orderly.done_of_closed (Bool.not_eq_true _ ▸ hclosed)] at hdone
        cases hdone
      · exact absurd rfl hdue
  | closed hpc hclosed => exact uncounted_closed huncounted hpc hclosed
  | stillOpen hpc hopen => exact uncounted_proceed huncounted hplaced hpc hopen
  | full _ => exact hsame rfl rfl trivial
  | tryPop _ _ =>
      unfold tryPop
      split
      · exact huncounted.prune hbooks late (Or.inl trivial) rfl rfl
      · exact huncounted.prune hbooks late (Or.inl trivial) rfl rfl
  | admitRequest _ =>
      unfold admitRequest
      split
      · exact huncounted.elsewhere (quiet_answer rfl rfl) trivial
      · split
        · exact huncounted.elsewhere (quiet_answer rfl rfl) trivial
        · exact hsame rfl rfl trivial
  | prefill _ =>
      unfold prefill
      split
      · exact huncounted.elsewhere (quiet_answer rfl rfl) trivial
      · exact hsame rfl rfl trivial
  | evict _ =>
      unfold evictAt
      split
      · refine hsame rfl rfl ?_
        dsimp only [State.goto]
        split <;> trivial
      · dsimp only
        split
        · exact huncounted.elsewhere (quiet_answer rfl rfl) trivial
        · exact hsame rfl rfl trivial
  | park _ _ => exact hsame rfl rfl trivial
  | resume _ => exact hsame rfl rfl trivial
  | wake _ _ => exact hsame rfl rfl trivial
  | forward _ =>
      unfold forward
      split <;> exact hsame rfl rfl trivial
  | failBatch _ =>
      unfold failBatchAt
      split
      · exact hsame rfl rfl trivial
      · exact huncounted.elsewhere (quiet_answer rfl rfl) trivial
  | sampleToken hpc => exact uncounted_sampleToken hpc huncounted hroom
  | sendItems _ =>
      unfold sendItems
      split
      · rename_i seq item rest _ _
        refine huncounted.elsewhere (quiet_updateClient (Client.send_receiverOpen item)
          (Client.send_responseDone item) ?_ rfl rfl) trivial
        intro client
        exact List.subset_append_left _ _
      · exact hsame rfl rfl trivial
  | closeQueue _ => exact hsame rfl rfl trivial
  | answerQueued _ =>
      unfold answerQueued
      split
      · exact hsame rfl rfl trivial
      · exact huncounted.elsewhere (quiet_answer rfl rfl) trivial
  | answerRunning _ =>
      unfold answerRunning
      split
      · exact hsame rfl rfl trivial
      · exact huncounted.elsewhere (quiet_answer rfl rfl) trivial

theorem uncounted_step {action : Action α} (hplaced : Placed s.pc s.running s.queue)
    (hbooks : Books s) (huncounted : Uncounted client s) (hinOrder : StopsInOrder client s action)
    (hunraced : Unraced client s action) (hstep : step scheduler action s = some s') :
    Uncounted client s' := by
  have hkeeps : ∀ {after : State α}, after.clients = s.clients →
      after.metrics.cancelledSequences = s.metrics.cancelledSequences → after.pc = s.pc →
        after.running = s.running → Uncounted client after := by
    intro after hclients hcancelled hpc hrunning
    apply huncounted.quiet (quiet_of_clients hclients hcancelled)
    unfold State.BetweenReads State.due
    rw [hpc, hrunning]
    exact huncounted.open_of_betweenReads
  cases step_cases hstep with
  | sched hsched => exact uncounted_schedStep hplaced hbooks huncounted hunraced hsched
  | schedShutdown _ _ => exact huncounted.elsewhere (quiet_of_clients rfl rfl) trivial
  | @refuse req late _ _ => exact huncounted.prune hbooks late (Or.inr ⟨rfl, rfl⟩) rfl rfl
  | @accept req late _ _ _ => exact huncounted.prune hbooks late (Or.inr ⟨rfl, rfl⟩) rfl rfl
  | notify _ => exact hkeeps rfl rfl rfl rfl
  | shutdown => exact hkeeps rfl rfl rfl rfl
  | @client other action after hact =>
      by_cases heq : other = client
      · subst heq
        have hafter : Function.update s.clients other after other = after :=
          Function.update_self _ _ _
        constructor
        case cancelled => exact huncounted.cancelled
        case orderly =>
          change (Function.update s.clients other after other).Orderly
          rw [hafter]
          exact huncounted.orderly.act (hinOrder rfl) hact
        case open_of_betweenReads =>
          intro hbetween
          have hopen : (s.clients other).receiverOpen = true :=
            huncounted.open_of_betweenReads hbetween
          change (Function.update s.clients other after other).receiverOpen = true
          rw [hafter]
          cases action with
          | recv =>
              obtain ⟨rfl, -⟩ := Client.act_recv hact
              exact hopen
          | cancelDone => exact Option.some.inj hact ▸ hopen
          | dropReceiver => exact absurd hbetween (hunraced rfl)
      · have hsame : Function.update s.clients other after client = s.clients client :=
          Function.update_of_ne (Ne.symm heq) _ _
        constructor
        case cancelled => exact huncounted.cancelled
        case orderly =>
          change (Function.update s.clients other after client).Orderly
          rw [hsame]
          exact huncounted.orderly
        case open_of_betweenReads =>
          change _ → (Function.update s.clients other after client).receiverOpen = true
          rw [hsame]
          exact huncounted.open_of_betweenReads

/-- **An orderly client that is not raced is never counted as disconnected.** -/
theorem uncounted_reachable {maxDepth : ℕ} {capacity : ClientId → ℕ}
    {maxSeqs maxSeqLen numLayers nHeads headDim : ℕ}
    (hreach : Reaches scheduler (fun s action ↦ StopsInOrder client s action ∧ Unraced client s action)
      (init (.new maxSeqs maxSeqLen numLayers nHeads headDim) maxDepth capacity) s) :
    Uncounted client s := by
  refine hreach.invariant ?_ ?_
  · rintro before after action hbefore huncounted ⟨hinOrder, hunraced⟩ hnext
    exact uncounted_step (placed_reachable hbefore) (books_reachable hbefore) huncounted hinOrder
      hunraced hnext
  · refine ⟨rfl, Client.orderly_new _, ?_⟩
    exact fun hbetween ↦ absurd hbetween (not_betweenReads trivial)

/-- Where an update is due, the next step samples it. -/
theorem exists_of_due_ne (hdue : s.due client ≠ []) :
    ∃ index logits seq row tokens stepped, s.pc = .sampleToken index logits ∧
      s.running[index]? = some seq ∧ seq.client = client ∧ logitRow logits index = .ok row ∧
      seq.advance row = some (tokens, stepped) ∧
      s.due client = updateItems tokens stepped.finishReason := by
  cases hpc : s.pc with
  | sampleToken index logits =>
      cases hseq : s.running[index]? with
      | none =>
          unfold State.due at hdue
          simp [hpc, hseq] at hdue
      | some seq =>
          have hsame : s.due client = if seq.client = client then seq.due logits index else [] :=
            due_sampleToken hpc hseq
          have hclient : seq.client = client := by
            by_contra hne
            rw [hsame, if_neg hne] at hdue
            exact hdue rfl
          rw [if_pos hclient] at hsame
          unfold Sequence.due at hsame
          cases hrow : logitRow logits index with
          | error err =>
              rw [hrow] at hsame
              exact absurd hsame hdue
          | ok row =>
              cases hadvance : seq.advance row with
              | none =>
                  rw [hrow] at hsame
                  dsimp only at hsame
                  rw [hadvance] at hsame
                  exact absurd hsame hdue
              | some result =>
                  obtain ⟨tokens, stepped⟩ := result
                  rw [hrow] at hsame
                  dsimp only at hsame
                  rw [hadvance] at hsame
                  exact ⟨index, logits, seq, row, tokens, stepped, rfl, hseq, hclient, hrow, hadvance,
                    hsame⟩
  | _ =>
      unfold State.due at hdue
      simp [hpc] at hdue

/-- **The condition is needed.** A receiver that is gone between two reads and an update that finds no
room are counted by the next step of the scheduler. -/
theorem counted_of_raced {late : List ClientId}
    (hraced : s.BetweenReads client ∧ (s.clients client).receiverOpen = false ∨
      (s.clients client).room < (s.due client).length)
    (hnext : next scheduler late s = some s') :
    s'.metrics.cancelledSequences.count client = s.metrics.cancelledSequences.count client + 1 := by
  have hcounted : (s.metrics.cancelledSequences ++ [client]).count client =
      s.metrics.cancelledSequences.count client + 1 := by
    rw [List.count_append, List.count_singleton_self]
  have hrefused : s.due client ≠ [] →
      ((s.clients client).receiverOpen = true → ¬ (s.due client).length ≤ (s.clients client).room) →
      s'.metrics.cancelledSequences.count client =
        s.metrics.cancelledSequences.count client + 1 := by
    intro hdue hlost
    have hrefused : ¬ (s.clients client).tryReserveMany (s.due client).length = true := by
      intro hreserved
      obtain ⟨hopen, hroom⟩ := Client.tryReserveMany_length.mp hreserved hdue
      exact hlost hopen hroom
    obtain ⟨index, logits, seq, row, tokens, stepped, hpc, hseq, rfl, hrow, hadvance, hitems⟩ :=
      exists_of_due_ne hdue
    rw [hitems] at hrefused
    unfold next at hnext
    rw [hpc] at hnext
    obtain rfl := Option.some.inj hnext
    unfold sampleToken
    rw [hseq]
    dsimp only
    rw [hrow]
    dsimp only
    rw [hadvance]
    dsimp only
    rw [if_neg hrefused]
    exact hcounted
  rcases hraced with ⟨hreading | hdue, hclosed⟩ | hfull
  · cases hpc : s.pc with
    | checkClosed site other =>
        rw [hpc] at hreading
        obtain rfl := Option.some.inj hreading
        unfold next Client.isClosed at hnext
        rw [hpc] at hnext
        dsimp only at hnext
        rw [hclosed] at hnext
        obtain rfl := Option.some.inj hnext
        obtain ⟨-, hcancelled, -⟩ := clients_abandon site (s.recordCancelled [other])
        rw [Bool.not_false, if_pos rfl, hcancelled]
        exact hcounted
    | _ =>
        rw [hpc] at hreading
        cases hreading
  · exact hrefused hdue fun hopen ↦ absurd (hclosed.symm.trans hopen) Bool.false_ne_true
  · have hdue : s.due client ≠ [] := by
      intro hnone
      rw [hnone] at hfull
      exact Nat.not_lt_zero _ hfull
    exact hrefused hdue fun _ ↦ Nat.not_le.mpr hfull

end Scheduler

end HotBatch
