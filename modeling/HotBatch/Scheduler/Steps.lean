import HotBatch.Scheduler.Machine

/-!
# What a step can do

Inversion of the two step functions: `SchedStep` has one constructor for each way the scheduler can
move, `Step` one for each way anybody can. The invariants are proved by cases on them.
-/

namespace HotBatch

namespace Scheduler

variable {α : Type}

/-- Nobody's signals change. -/
def SameSignals (s s' : State α) : Prop := ∀ client,
  (s'.clients client).receiverOpen = (s.clients client).receiverOpen ∧
    (s'.clients client).responseDone = (s.clients client).responseDone

/-- What a step of the scheduler leaves alone, unless it pops from the queue or closes it. -/
structure Frame (s s' : State α) : Prop where
  queue_eq : s'.queue = s.queue
  gauge_eq : s'.metrics.queueDepth = s.metrics.queueDepth
  shutdown_eq : s'.shutdown = s.shutdown
  signals : SameSignals s s'

section Frame

variable {s s' : State α}

theorem sameSignals_of_eq (hclients : s'.clients = s.clients) : SameSignals s s' :=
  fun client ↦ by rw [hclients]; exact ⟨rfl, rfl⟩

theorem clients_updateClient_self (client : ClientId) (f : Client → Client) :
    (s.updateClient client f).clients client = f (s.clients client) := Function.update_self _ _ _

theorem clients_updateClient_of_ne {client other : ClientId} (hother : other ≠ client)
    (f : Client → Client) : (s.updateClient client f).clients other = s.clients other :=
  Function.update_of_ne hother _ _

/-- An error in a channel was there before the answer, or it is the answer. -/
theorem error_of_answer {client other : ClientId} {message text : String}
    (hclients : s'.clients = (s.trySendError client message).clients)
    (hmem : .error text ∈ (s'.clients other).sent) :
    .error text ∈ (s.clients other).sent ∨ other = client ∧ text = message := by
  rw [hclients] at hmem
  unfold State.trySendError at hmem
  by_cases hother : other = client
  · subst hother
    rw [clients_updateClient_self] at hmem
    exact (Client.error_of_trySendError hmem).imp_right fun htext ↦ ⟨rfl, htext⟩
  · rw [clients_updateClient_of_ne hother] at hmem
    exact Or.inl hmem

/-- Sending anything but an error adds no error to any channel. -/
theorem error_of_send {client other : ClientId} {item : StreamItem} {text : String}
    (hclients : s'.clients = (s.updateClient client (Client.send item)).clients)
    (hitem : item ≠ .error text) (hmem : .error text ∈ (s'.clients other).sent) :
    .error text ∈ (s.clients other).sent := by
  rw [hclients] at hmem
  by_cases hother : other = client
  · subst hother
    rw [clients_updateClient_self] at hmem
    exact Client.error_of_send hitem hmem
  · rwa [clients_updateClient_of_ne hother] at hmem

/-- A connection that acts leaves what was sent to anybody. -/
theorem sent_of_act {client : ClientId} {action : ClientAction} {after : Client}
    (hact : (s.clients client).act action = some after) (other : ClientId) :
    (Function.update s.clients client after other).sent = (s.clients other).sent := by
  by_cases hother : other = client
  · subst hother
    rw [Function.update_self, Client.act_sent hact]
  · rw [Function.update_of_ne hother]

/-- Writing to a channel is no signal. -/
theorem sameSignals_updateClient (client : ClientId) {f : Client → Client}
    (hclients : s'.clients = (s.updateClient client f).clients)
    (hopen : (f (s.clients client)).receiverOpen = (s.clients client).receiverOpen)
    (hdone : (f (s.clients client)).responseDone = (s.clients client).responseDone) :
    SameSignals s s' := by
  have hupdated : s'.clients = Function.update s.clients client (f (s.clients client)) := hclients
  intro other
  rw [hupdated]
  by_cases hother : other = client
  · rw [hother, Function.update_self]
    exact ⟨hopen, hdone⟩
  · rw [Function.update_of_ne hother]
    exact ⟨rfl, rfl⟩

theorem sameSignals_send (client : ClientId) (item : StreamItem)
    (hclients : s'.clients = (s.updateClient client (Client.send item)).clients) :
    SameSignals s s' :=
  sameSignals_updateClient client hclients (Client.send_receiverOpen item _)
    (Client.send_responseDone item _)

theorem sameSignals_answer (client : ClientId) (message : String)
    (hclients : s'.clients = (s.trySendError client message).clients) : SameSignals s s' :=
  sameSignals_updateClient client hclients (Client.trySend_receiverOpen (.error message) _)
    (Client.trySend_responseDone (.error message) _)

theorem frame_of_eq (hqueue : s'.queue = s.queue)
    (hgauge : s'.metrics.queueDepth = s.metrics.queueDepth) (hshutdown : s'.shutdown = s.shutdown)
    (hclients : s'.clients = s.clients) : Frame s s' :=
  ⟨hqueue, hgauge, hshutdown, sameSignals_of_eq hclients⟩

theorem frame_answer (client : ClientId) (message : String) (hqueue : s'.queue = s.queue)
    (hgauge : s'.metrics.queueDepth = s.metrics.queueDepth) (hshutdown : s'.shutdown = s.shutdown)
    (hclients : s'.clients = (s.trySendError client message).clients) : Frame s s' :=
  ⟨hqueue, hgauge, hshutdown, sameSignals_answer client message hclients⟩

theorem frame_abandon (site : Site α) (s : State α) : Frame s (abandon site s) := by
  cases site <;> exact frame_of_eq rfl rfl rfl rfl

end Frame

variable [Kernels α]

/-- Everything that a step of the scheduler can be. -/
inductive SchedStep (scheduler : Scheduler α) (late : List ClientId) (s : State α) : State α → Prop
  | stop (hpc : s.pc = .loopHead) (hshutdown : s.shutdown = true) :
      SchedStep scheduler late s (s.goto .closeQueue)
  | enter (hpc : s.pc = .loopHead) : SchedStep scheduler late s (s.goto (.checkDone (.removing 0)))
  | endLoop {site : Site α} (hpc : s.pc = .checkDone site) (hclient : site.client s.running = none) :
      SchedStep scheduler late s (endLoop site s)
  | responseDone {site : Site α} {client : ClientId} (hpc : s.pc = .checkDone site)
      (hclient : site.client s.running = some client)
      (hdone : (s.clients client).responseDone = true) :
      SchedStep scheduler late s (abandon site s)
  | responseWanted {site : Site α} {client : ClientId} (hpc : s.pc = .checkDone site)
      (hclient : site.client s.running = some client)
      (hdone : (s.clients client).responseDone = false) :
      SchedStep scheduler late s (s.goto (.checkClosed site client))
  | closed {site : Site α} {client : ClientId} (hpc : s.pc = .checkClosed site client)
      (hclosed : (s.clients client).isClosed = true) :
      SchedStep scheduler late s (abandon site (s.recordCancelled [client]))
  | stillOpen {site : Site α} {client : ClientId} (hpc : s.pc = .checkClosed site client)
      (hclosed : (s.clients client).isClosed = false) :
      SchedStep scheduler late s (proceed site s)
  | full (hpc : s.pc = .admission) : SchedStep scheduler late s (endAdmission s)
  | tryPop (hpc : s.pc = .admission) (hroom : mayAdmit scheduler s = true) :
      SchedStep scheduler late s (tryPop late s)
  | admitRequest {req : GenerationRequest α} (hpc : s.pc = .admitRequest req) :
      SchedStep scheduler late s (admitRequest scheduler req s)
  | prefill {seq : Sequence α} (hpc : s.pc = .prefill seq) :
      SchedStep scheduler late s (prefill scheduler seq s)
  | evict {index : ℕ} (hpc : s.pc = .evict index) :
      SchedStep scheduler late s (evictAt scheduler index s)
  | park (hpc : s.pc = .idleCheck) (hempty : s.queue.requests = []) :
      SchedStep scheduler late s (s.goto .parked)
  | resume (hpc : s.pc = .idleCheck) : SchedStep scheduler late s (s.goto .loopHead)
  | wake (hpc : s.pc = .parked) (hpermit : s.permit = true) :
      SchedStep scheduler late s { s with permit := false, pc := .idleCheck }
  | forward (hpc : s.pc = .forward) : SchedStep scheduler late s (forward scheduler s)
  | failBatch {index : ℕ} {message : String} (hpc : s.pc = .failBatch index message) :
      SchedStep scheduler late s (failBatchAt index message s)
  | sampleToken {index : ℕ} {logits : List (LogitRow α)} (hpc : s.pc = .sampleToken index logits) :
      SchedStep scheduler late s (sampleToken index logits s)
  | sendItems {index : ℕ} {logits : List (LogitRow α)} {items : List StreamItem}
      (hpc : s.pc = .sendItems index logits items) :
      SchedStep scheduler late s (sendItems index logits items s)
  | closeQueue (hpc : s.pc = .closeQueue) : SchedStep scheduler late s (closeQueue s)
  | answerQueued {drained : List (GenerationRequest α)} (hpc : s.pc = .answerQueued drained) :
      SchedStep scheduler late s (answerQueued drained s)
  | answerRunning (hpc : s.pc = .answerRunning) : SchedStep scheduler late s (answerRunning s)

theorem schedStep_of_next {scheduler : Scheduler α} {late : List ClientId} {s s' : State α}
    (hnext : next scheduler late s = some s') : SchedStep scheduler late s s' := by
  unfold next at hnext
  split at hnext
  case h_1 hpc =>
      obtain rfl := Option.some.inj hnext
      cases hshutdown : s.shutdown with
      | true => exact .stop hpc hshutdown
      | false => exact .enter hpc
  case h_2 site hpc =>
      split at hnext
      · rename_i hclient
        obtain rfl := Option.some.inj hnext
        exact .endLoop hpc hclient
      · rename_i client hclient
        obtain rfl := Option.some.inj hnext
        cases hdone : (s.clients client).responseDone with
        | true => exact .responseDone hpc hclient hdone
        | false => exact .responseWanted hpc hclient hdone
  case h_3 site client hpc =>
      obtain rfl := Option.some.inj hnext
      cases hclosed : (s.clients client).isClosed with
      | true => exact .closed hpc hclosed
      | false => exact .stillOpen hpc hclosed
  case h_4 hpc =>
      obtain rfl := Option.some.inj hnext
      cases hroom : mayAdmit scheduler s with
      | true => exact .tryPop hpc hroom
      | false => exact .full hpc
  case h_5 req hpc => exact Option.some.inj hnext ▸ .admitRequest hpc
  case h_6 seq hpc => exact Option.some.inj hnext ▸ .prefill hpc
  case h_7 index hpc => exact Option.some.inj hnext ▸ .evict hpc
  case h_8 hpc =>
      obtain rfl := Option.some.inj hnext
      cases hempty : s.queue.requests with
      | nil => exact .park hpc hempty
      | cons req rest => exact .resume hpc
  case h_9 hpc =>
      split at hnext
      · rename_i hpermit
        exact Option.some.inj hnext ▸ .wake hpc hpermit
      · cases hnext
  case h_10 hpc => exact Option.some.inj hnext ▸ .forward hpc
  case h_11 index message hpc => exact Option.some.inj hnext ▸ .failBatch hpc
  case h_12 index logits hpc => exact Option.some.inj hnext ▸ .sampleToken hpc
  case h_13 index logits items hpc => exact Option.some.inj hnext ▸ .sendItems hpc
  case h_14 hpc => exact Option.some.inj hnext ▸ .closeQueue hpc
  case h_15 drained hpc => exact Option.some.inj hnext ▸ .answerQueued hpc
  case h_16 hpc => exact Option.some.inj hnext ▸ .answerRunning hpc
  case h_17 => cases hnext
  case h_18 => cases hnext

theorem frame_sampleToken (index : ℕ) (logits : List (LogitRow α)) (s : State α) :
    Frame s (sampleToken index logits s) := by
  unfold sampleToken
  split
  · exact frame_of_eq rfl rfl rfl rfl
  · split
    · exact frame_answer _ _ rfl rfl rfl rfl
    · split
      · exact frame_of_eq rfl rfl rfl rfl
      · dsimp only
        split <;> exact frame_of_eq rfl rfl rfl rfl

/-- **Apart from its two operations on the queue, no step of the scheduler touches it.** Nor does any
step touch the shutdown flag or what the connections signal. -/
theorem frame_schedStep {scheduler : Scheduler α} {late : List ClientId} {s s' : State α}
    (hstep : SchedStep scheduler late s s') :
    Frame s s' ∨ s.pc = .admission ∧ s' = tryPop late s ∨ s.pc = .closeQueue ∧ s' = closeQueue s := by
  cases hstep with
  | tryPop hpc _ => exact Or.inr (Or.inl ⟨hpc, rfl⟩)
  | closeQueue hpc => exact Or.inr (Or.inr ⟨hpc, rfl⟩)
  | @endLoop site _ _ =>
      left
      cases site <;> exact frame_of_eq rfl rfl rfl rfl
  | responseDone _ _ _ => exact Or.inl (frame_abandon _ s)
  | @closed site _ _ _ =>
      left
      cases site <;> exact frame_of_eq rfl rfl rfl rfl
  | @stillOpen site _ _ _ =>
      left
      cases site <;> exact frame_of_eq rfl rfl rfl rfl
  | admitRequest _ =>
      left
      unfold admitRequest
      split
      · exact frame_answer _ _ rfl rfl rfl rfl
      · split
        · exact frame_answer _ _ rfl rfl rfl rfl
        · exact frame_of_eq rfl rfl rfl rfl
  | prefill _ =>
      left
      unfold prefill
      split
      · exact frame_answer _ _ rfl rfl rfl rfl
      · exact frame_of_eq rfl rfl rfl rfl
  | evict _ =>
      left
      unfold evictAt
      split
      · exact frame_of_eq rfl rfl rfl rfl
      · dsimp only
        split
        · exact frame_answer _ _ rfl rfl rfl rfl
        · exact frame_of_eq rfl rfl rfl rfl
  | forward _ =>
      left
      unfold forward
      split <;> exact frame_of_eq rfl rfl rfl rfl
  | failBatch _ =>
      left
      unfold failBatchAt
      split
      · exact frame_of_eq rfl rfl rfl rfl
      · exact frame_answer _ _ rfl rfl rfl rfl
  | sampleToken _ => exact Or.inl (frame_sampleToken _ _ s)
  | sendItems _ =>
      left
      unfold sendItems
      split
      · exact ⟨rfl, rfl, rfl, sameSignals_send _ _ rfl⟩
      · exact frame_of_eq rfl rfl rfl rfl
  | answerQueued _ =>
      left
      unfold answerQueued
      split
      · exact frame_of_eq rfl rfl rfl rfl
      · exact frame_answer _ _ rfl rfl rfl rfl
  | answerRunning _ =>
      left
      unfold answerRunning
      split
      · exact frame_of_eq rfl rfl rfl rfl
      · exact frame_answer _ _ rfl rfl rfl rfl
  | _ => exact Or.inl (frame_of_eq rfl rfl rfl rfl)

/-- Everything that a step of anybody can be. -/
inductive Step (scheduler : Scheduler α) (s : State α) : Action α → State α → Prop
  | sched {late : List ClientId} {s' : State α} (hstep : SchedStep scheduler late s s') :
      Step scheduler s (.sched late) s'
  | schedShutdown (hpc : s.pc = .idleCheck ∨ s.pc = .parked) (hshutdown : s.shutdown = true) :
      Step scheduler s .schedShutdown (s.goto .closeQueue)
  | refuse {req : GenerationRequest α} {late : List ClientId}
      (hnew : req.client ∉ s.history.refused ∧
        req.client ∉ s.history.accepted.map GenerationRequest.client)
      (hrefused : s.queue.closed = true ∨
        s.queue.maxDepth ≤ (s.queue.retainOpen (s.isOpen late)).requests.length) :
      Step scheduler s (.submit req late)
        (refuse req (s.prune (s.queue.pruned (s.isOpen late)) (s.queue.retainOpen (s.isOpen late))))
  | accept {req : GenerationRequest α} {late : List ClientId}
      (hnew : req.client ∉ s.history.refused ∧
        req.client ∉ s.history.accepted.map GenerationRequest.client)
      (hopen : s.queue.closed = false)
      (hroom : (s.queue.retainOpen (s.isOpen late)).requests.length < s.queue.maxDepth) :
      Step scheduler s (.submit req late)
        (accept req (s.prune (s.queue.pruned (s.isOpen late))
          ((s.queue.retainOpen (s.isOpen late)).push req)))
  | notify (hpending : s.pendingNotifies ≠ 0) :
      Step scheduler s .notify
        { s with permit := true, pendingNotifies := s.pendingNotifies - 1 }
  | client {client : ClientId} {action : ClientAction} {after : Client}
      (hact : (s.clients client).act action = some after) :
      Step scheduler s (.client client action)
        { s with clients := Function.update s.clients client after }
  | shutdown : Step scheduler s .shutdown { s with shutdown := true }

theorem step_cases {scheduler : Scheduler α} {action : Action α} {s s' : State α}
    (hstep : step scheduler action s = some s') : Step scheduler s action s' := by
  cases action with
  | sched late => exact .sched (schedStep_of_next hstep)
  | schedShutdown =>
      change nextShutdown s = some s' at hstep
      unfold nextShutdown at hstep
      split at hstep
      · rename_i hpc
        split at hstep
        · rename_i hshutdown
          exact Option.some.inj hstep ▸ .schedShutdown (Or.inl hpc) hshutdown
        · cases hstep
      · rename_i hpc
        split at hstep
        · rename_i hshutdown
          exact Option.some.inj hstep ▸ .schedShutdown (Or.inr hpc) hshutdown
        · cases hstep
      · cases hstep
  | submit req late =>
      change submit req late s = some s' at hstep
      unfold submit at hstep
      split at hstep
      · cases hstep
      · rename_i hnew
        rw [not_or] at hnew
        dsimp only at hstep
        rcases RequestQueue.submit_cases (s.isOpen late) req s.queue with
          ⟨hsubmit, hrefused⟩ | ⟨hsubmit, hopen, hroom⟩
        · rw [hsubmit] at hstep
          exact Option.some.inj hstep ▸ .refuse hnew hrefused
        · rw [hsubmit] at hstep
          exact Option.some.inj hstep ▸ .accept hnew hopen hroom
  | notify =>
      change (if _ then _ else _) = _ at hstep
      split at hstep
      · cases hstep
      · rename_i hpending
        exact Option.some.inj hstep ▸ .notify hpending
  | client client action =>
      obtain ⟨after, hact, rfl⟩ := Option.map_eq_some_iff.mp hstep
      exact .client hact
  | shutdown => exact Option.some.inj hstep ▸ .shutdown

end Scheduler

end HotBatch
