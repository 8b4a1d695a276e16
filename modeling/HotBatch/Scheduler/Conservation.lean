import HotBatch.Scheduler.Ledger
import Mathlib.Tactic.Abel

/-!
# Conservation of requests

`Holding` is where an accepted request can be. In every state there is exactly one holding for each
accepted request, and its ledger agrees with what went out on its channel. A delivery that is under
way counts as having gone out: its items lie in reserved places, where nobody can interfere.
-/

namespace HotBatch

namespace Scheduler

variable {α : Type}

/-! ## Holdings -/

/-- What the scheduler has of a request. -/
inductive Holding (α : Type) where
  | waiting (req : GenerationRequest α)
  | admitting (seq : Sequence α)
  | running (seq : Sequence α)
  | resolved (entry : Resolved α)

namespace Holding

def client : Holding α → ClientId
  | waiting req => req.client
  | admitting seq => seq.client
  | running seq => seq.client
  | resolved entry => entry.client

/-- What must have happened on the channel of a request that is held so. -/
def Agrees : Holding α → View → Prop
  | waiting _, view => view = .blank
  | admitting seq, view => view = .blank ∧ seq.Unstarted
  | running seq, view => seq.Account view ∧ (seq.isDone = false → seq.Live view)
  | resolved (.request _), view =>
      view.updates = [] ∧ AtMostOneError view.outgoing ∧ view.cancelled ≤ 1
  | resolved (.sequence seq), view => seq.Account view

/-- The holdings of a queue, of what has been taken out of it, and of the sequences. -/
def all (queue pending : List (GenerationRequest α)) (candidate : Option (Sequence α))
    (running : List (Sequence α)) (dropped : List (Resolved α)) : Multiset (Holding α) :=
  ↑(queue.map waiting) + ↑(pending.map waiting) + ↑(candidate.toList.map admitting) +
    ↑(running.map Holding.running) + ↑(dropped.map resolved)

section All

variable {queue queue' pending : List (GenerationRequest α)} {candidate : Option (Sequence α)}
  {running : List (Sequence α)} {dropped : List (Resolved α)}

theorem all_queue_perm (hperm : queue.Perm queue') :
    all queue pending candidate running dropped = all queue' pending candidate running dropped := by
  unfold all
  rw [Multiset.coe_eq_coe.mpr (hperm.map waiting)]

/-- Requests can be taken out of the queue. -/
theorem all_take (taken : List (GenerationRequest α)) :
    all queue (taken ++ pending) candidate running dropped =
      all (taken ++ queue) pending candidate running dropped := by
  unfold all
  simp only [List.map_append, ← Multiset.coe_add]
  abel

theorem all_queue (req : GenerationRequest α) :
    all (req :: queue) pending candidate running dropped =
      waiting req ::ₘ all queue pending candidate running dropped := by
  unfold all
  rw [List.map_cons, ← Multiset.cons_coe, ← Multiset.singleton_add, ← Multiset.singleton_add]
  abel

theorem all_pending (req : GenerationRequest α) :
    all queue (req :: pending) candidate running dropped =
      waiting req ::ₘ all queue pending candidate running dropped := by
  unfold all
  rw [List.map_cons, ← Multiset.cons_coe, ← Multiset.singleton_add, ← Multiset.singleton_add]
  abel

theorem all_candidate (seq : Sequence α) :
    all queue pending (some seq) running dropped =
      admitting seq ::ₘ all queue pending none running dropped := by
  unfold all
  rw [Option.toList_some, Option.toList_none, List.map_singleton, List.map_nil,
    Multiset.coe_singleton, Multiset.coe_nil, ← Multiset.singleton_add]
  abel

theorem all_running {rest : List (Sequence α)} {seq : Sequence α} (hperm : running.Perm (seq :: rest)) :
    all queue pending candidate running dropped =
      Holding.running seq ::ₘ all queue pending candidate rest dropped := by
  unfold all
  rw [Multiset.coe_eq_coe.mpr (hperm.map Holding.running), List.map_cons, ← Multiset.cons_coe,
    ← Multiset.singleton_add, ← Multiset.singleton_add]
  abel

theorem all_dropped (last : Resolved α) :
    all queue pending candidate running (dropped ++ [last]) =
      resolved last ::ₘ all queue pending candidate running dropped := by
  unfold all
  rw [List.map_append, ← Multiset.coe_add, List.map_singleton, Multiset.coe_singleton,
    ← Multiset.singleton_add]
  abel

/-- Some of the queue are dropped. -/
theorem all_queue_append (first : List (GenerationRequest α)) :
    all (first ++ queue) pending candidate running dropped =
      ↑(first.map waiting) + all queue pending candidate running dropped := by
  unfold all
  rw [List.map_append, ← Multiset.coe_add]
  abel

theorem all_running_append (first : List (Sequence α)) :
    all queue pending candidate (first ++ running) dropped =
      ↑(first.map Holding.running) + all queue pending candidate running dropped := by
  unfold all
  rw [List.map_append, ← Multiset.coe_add]
  abel

theorem all_running_perm {running' : List (Sequence α)} (hperm : running.Perm running') :
    all queue pending candidate running dropped = all queue pending candidate running' dropped := by
  unfold all
  rw [Multiset.coe_eq_coe.mpr (hperm.map Holding.running)]

theorem all_dropped_append (more : List (Resolved α)) :
    all queue pending candidate running (dropped ++ more) =
      ↑(more.map resolved) + all queue pending candidate running dropped := by
  unfold all
  rw [List.map_append, ← Multiset.coe_add]
  abel

end All

end Holding

/-! ## Views of a state -/

/-- The items of the delivery that is under way, and where its sequence stands in `running`. -/
def Pc.items : Pc α → Option (ℕ × List StreamItem)
  | sendItems index _ items => some (index, items)
  | _ => none

namespace State

/-- What still has to go into reserved places of this client. -/
def inFlight (s : State α) (client : ClientId) : List StreamItem :=
  match s.pc.items with
  | some (index, items) => if (s.running[index]?).map Sequence.client = some client then items else []
  | none => []

def view (s : State α) (client : ClientId) : View where
  outgoing := (s.clients client).sent ++ s.inFlight client
  updates := s.history.updates.filter fun update ↦ update.client = client
  cancelled := s.metrics.cancelledSequences.count client

def holdings (s : State α) : Multiset (Holding α) :=
  Holding.all s.queue.requests s.pc.pending s.pc.candidate s.running s.history.resolved

end State

/-- Every accepted request is held once, and its channel agrees with where it is held. -/
def Books (s : State α) : Prop :=
  Custody Holding.client Holding.Agrees .blank (s.history.accepted.map GenerationRequest.client)
    s.view s.holdings

section Views

variable {s s' : State α} {client : ClientId}

theorem waiting_mem_holdings {req : GenerationRequest α}
    (hreq : req ∈ s.queue.requests ∨ req ∈ s.pc.pending) : .waiting req ∈ s.holdings := by
  unfold State.holdings Holding.all
  rcases hreq with hqueued | hpending
  · simp [hqueued]
  · simp [hpending]

theorem admitting_mem_holdings {seq : Sequence α} (hseq : s.pc.candidate = some seq) :
    .admitting seq ∈ s.holdings := by
  unfold State.holdings Holding.all
  simp [hseq]

theorem running_mem_holdings {seq : Sequence α} :
    .running seq ∈ s.holdings ↔ seq ∈ s.running := by
  unfold State.holdings Holding.all
  simp

theorem resolved_mem_holdings {entry : Resolved α} :
    .resolved entry ∈ s.holdings ↔ entry ∈ s.history.resolved := by
  unfold State.holdings Holding.all
  simp

theorem inFlight_of_idle (hidle : s.pc.items = none) (client : ClientId) :
    s.inFlight client = [] := by
  unfold State.inFlight
  rw [hidle]

theorem inFlight_sendItems {index : ℕ} {logits : List (LogitRow α)} {items : List StreamItem}
    (hpc : s.pc = .sendItems index logits items) (client : ClientId) :
    s.inFlight client =
      if (s.running[index]?).map Sequence.client = some client then items else [] := by
  unfold State.inFlight
  rw [hpc]
  rfl

theorem inFlight_idle (hidle : s.pc.items = none) (hidle' : s'.pc.items = none) :
    s'.inFlight client = s.inFlight client :=
  (inFlight_of_idle hidle' client).trans (inFlight_of_idle hidle client).symm

/-- The view of a client is in its channel and in the records. -/
theorem view_congr (hflight : s'.inFlight client = s.inFlight client)
    (hsent : (s'.clients client).sent = (s.clients client).sent)
    (hupdates : s'.history.updates = s.history.updates)
    (hcancelled : s'.metrics.cancelledSequences = s.metrics.cancelledSequences) :
    s'.view client = s.view client := by
  unfold State.view
  rw [hflight, hsent, hupdates, hcancelled]

/-- Nobody but the client who is answered sees the answer. -/
theorem view_answered_of_ne {other : ClientId} {message : String} (hother : other ≠ client)
    (hidle : s.pc.items = none) (hidle' : s'.pc.items = none)
    (hclients : s'.clients = (s.trySendError client message).clients)
    (hupdates : s'.history.updates = s.history.updates)
    (hcancelled : s'.metrics.cancelledSequences = s.metrics.cancelledSequences) :
    s'.view other = s.view other := by
  apply view_congr (inFlight_idle hidle hidle') _ hupdates hcancelled
  rw [hclients]
  exact congrArg Client.sent (clients_updateClient_of_ne hother _)

/-- An answer may not go out, but nothing else can happen. -/
theorem view_answered {message : String} (hidle : s.pc.items = none) (hidle' : s'.pc.items = none)
    (hclients : s'.clients = (s.trySendError client message).clients)
    (hupdates : s'.history.updates = s.history.updates)
    (hcancelled : s'.metrics.cancelledSequences = s.metrics.cancelledSequences) :
    (s.view client).GivenUp (s'.view client) := by
  have hsent : (s'.clients client).sent = ((s.clients client).trySend (.error message)).sent := by
    rw [hclients]
    exact congrArg Client.sent (clients_updateClient_self client _)
  constructor
  case updates => exact congrArg (List.filter _) hupdates
  case cancelled_le =>
    apply Nat.le_succ_of_le
    exact (congrArg (List.count client) hcancelled).le
  case outgoing =>
    unfold State.view
    rw [inFlight_of_idle hidle, inFlight_of_idle hidle', hsent, List.append_nil, List.append_nil]
    rcases Client.trySend_sent (.error message) (s.clients client) with hlost | hgone
    · rw [hlost]
      exact ⟨[], Or.inl rfl, (List.append_nil _).symm⟩
    · rw [hgone]
      exact ⟨[.error message], Or.inr ⟨message, rfl⟩, rfl⟩

/-- A disconnect is counted for some clients. -/
theorem view_counted {counted : List ClientId} (hflight : s'.inFlight client = s.inFlight client)
    (hsent : (s'.clients client).sent = (s.clients client).sent)
    (hupdates : s'.history.updates = s.history.updates)
    (hcancelled : s'.metrics.cancelledSequences = s.metrics.cancelledSequences ++ counted) :
    s'.view client = ⟨(s.view client).outgoing, (s.view client).updates,
      (s.view client).cancelled + counted.count client⟩ := by
  unfold State.view
  rw [hflight, hsent, hupdates, hcancelled, List.count_append]

theorem View.givenUp_of_counted {view : View} {count : ℕ} (hcount : count ≤ 1) :
    view.GivenUp ⟨view.outgoing, view.updates, view.cancelled + count⟩ where
  updates := rfl
  outgoing := ⟨[], Or.inl rfl, (List.append_nil _).symm⟩
  cancelled_le := Nat.add_le_add_left hcount _

/-- A client that is given up may be counted, and nobody else is. -/
theorem view_abandoned {counted : List ClientId} (hcounted : counted = [] ∨ counted = [client])
    (hidle : s.pc.items = none) (hidle' : s'.pc.items = none) (hclients : s'.clients = s.clients)
    (hupdates : s'.history.updates = s.history.updates)
    (hcancelled : s'.metrics.cancelledSequences = s.metrics.cancelledSequences ++ counted) :
    (∀ other ≠ client, s'.view other = s.view other) ∧
      (s.view client).GivenUp (s'.view client) := by
  have hview : ∀ other, s'.view other = ⟨(s.view other).outgoing, (s.view other).updates,
      (s.view other).cancelled + counted.count other⟩ := fun other ↦
    view_counted (inFlight_idle hidle hidle') (by rw [hclients]) hupdates hcancelled
  constructor
  · intro other hother
    have hzero : counted.count other = 0 := by
      apply List.count_eq_zero.mpr
      rcases hcounted with rfl | rfl
      · exact List.not_mem_nil
      · rwa [List.mem_singleton]
    rw [hview, hzero]
    rfl
  · have hle : counted.count client ≤ 1 := by
      rcases hcounted with rfl | rfl
      · exact Nat.zero_le 1
      · exact List.count_singleton_self.le
    rw [hview]
    exact View.givenUp_of_counted hle

end Views

/-! ## What can happen to the books -/

namespace Books

variable {s s' : State α}

theorem init (kvCache : SlabKvCache (KvTensor α)) (maxDepth : ℕ) (capacity : ClientId → ℕ) :
    Books (Scheduler.init kvCache maxDepth capacity) := Custody.nil _ _ _

/-- Nothing has happened. -/
theorem same (hbooks : Books s) (hholdings : s'.holdings = s.holdings)
    (haccepted : s'.history.accepted = s.history.accepted)
    (hview : ∀ client, s'.view client = s.view client) : Books s' := by
  unfold Books at hbooks ⊢
  rw [hholdings, haccepted, funext hview]
  exact hbooks

theorem replace (hbooks : Books s) {old new : Holding α} {rest : Multiset (Holding α)}
    (hold : s.holdings = old ::ₘ rest) (hnew : s'.holdings = new ::ₘ rest)
    (haccepted : s'.history.accepted = s.history.accepted) (hclient : new.client = old.client)
    (hothers : ∀ other ≠ old.client, s'.view other = s.view other)
    (hagrees : old.Agrees (s.view old.client) → new.Agrees (s'.view old.client)) : Books s' := by
  unfold Books at hbooks ⊢
  rw [hold] at hbooks
  rw [hnew, haccepted]
  exact hbooks.replace hclient hothers hagrees

/-- The program counter moves and keeps what it holds. -/
theorem goto (hbooks : Books s) {pc : Pc α} (hidle : s.pc.items = none) (hidle' : pc.items = none)
    (hpending : pc.pending = s.pc.pending) (hcandidate : pc.candidate = s.pc.candidate) :
    Books (s.goto pc) := by
  have hholdings : (s.goto pc).holdings = s.holdings := by
    change Holding.all _ pc.pending pc.candidate _ _ = _
    rw [hpending, hcandidate]
    rfl
  exact hbooks.same hholdings rfl fun client ↦ view_congr (inFlight_idle hidle hidle') rfl rfl rfl

/-- A sequence of `running` is cancelled or failed. -/
theorem giveUpRunning (hbooks : Books s) {index : ℕ} {seq stopped : Sequence α}
    (hseq : s.running[index]? = some seq) (hdone : seq.isDone = false)
    (hstopped : stopped = { seq with state := stopped.state }) (hstoppedDone : stopped.isDone = true)
    (hholdings : s'.holdings = Holding.all s.queue.requests s.pc.pending s.pc.candidate
      (s.running.set index stopped) s.history.resolved)
    (haccepted : s'.history.accepted = s.history.accepted)
    (hothers : ∀ other ≠ seq.client, s'.view other = s.view other)
    (hself : (s.view seq.client).GivenUp (s'.view seq.client)) : Books s' := by
  obtain ⟨hlt, hget⟩ := List.getElem?_eq_some_iff.mp hseq
  have hold : s.running.Perm (seq :: s.running.eraseIdx index) := by
    rw [← hget]
    exact (List.getElem_cons_eraseIdx_perm hlt).symm
  have hnew := List.set_perm_cons_eraseIdx hlt stopped
  have hclient : stopped.client = seq.client := by rw [hstopped]
  apply hbooks.replace (Holding.all_running hold) (hholdings.trans (Holding.all_running hnew))
    haccepted hclient hothers
  rintro ⟨-, hlive⟩
  constructor
  · rw [hstopped]
    exact (hlive hdone).giveUp hself _
  · intro hnot
    rw [hstoppedDone] at hnot
    cases hnot

/-- A request that has been taken out of the queue is dropped. -/
theorem dropRequest (hbooks : Books s) {req : GenerationRequest α}
    {pending : List (GenerationRequest α)} (hpending : s.pc.pending = req :: pending)
    (hholdings : s'.holdings = Holding.all s.queue.requests pending s.pc.candidate s.running
      (s.history.resolved ++ [.request req]))
    (haccepted : s'.history.accepted = s.history.accepted)
    (hothers : ∀ other ≠ req.client, s'.view other = s.view other)
    (hself : (s.view req.client).GivenUp (s'.view req.client)) : Books s' := by
  have hold : s.holdings = .waiting req ::ₘ Holding.all s.queue.requests pending s.pc.candidate
      s.running s.history.resolved := by
    unfold State.holdings
    rw [hpending]
    exact Holding.all_pending req
  apply hbooks.replace hold (hholdings.trans (Holding.all_dropped _)) haccepted rfl hothers
  intro hblank
  change s.view req.client = .blank at hblank
  rw [hblank] at hself
  obtain ⟨errors, herrors, houtgoing⟩ := hself.outgoing
  refine ⟨hself.updates, ?_, hself.cancelled_le⟩
  change AtMostOneError (s'.view req.client).outgoing
  rw [houtgoing]
  exact herrors

/-- The candidate is dropped. -/
theorem dropCandidate (hbooks : Books s) {seq dropped : Sequence α}
    (hcandidate : s.pc.candidate = some seq) (hdropped : dropped = { seq with state := dropped.state })
    (hholdings : s'.holdings = Holding.all s.queue.requests s.pc.pending none s.running
      (s.history.resolved ++ [.sequence dropped]))
    (haccepted : s'.history.accepted = s.history.accepted)
    (hothers : ∀ other ≠ seq.client, s'.view other = s.view other)
    (hself : (s.view seq.client).GivenUp (s'.view seq.client)) : Books s' := by
  have hold : s.holdings = .admitting seq ::ₘ Holding.all s.queue.requests s.pc.pending none
      s.running s.history.resolved := by
    unfold State.holdings
    rw [hcandidate]
    exact Holding.all_candidate seq
  have hclient : dropped.client = seq.client := by rw [hdropped]
  apply hbooks.replace hold (hholdings.trans (Holding.all_dropped _)) haccepted hclient hothers
  rintro ⟨hblank, hunstarted⟩
  change s.view seq.client = .blank at hblank
  rw [hblank] at hself
  have haccount := hunstarted.live.giveUp hself dropped.state
  rw [← hdropped] at haccount
  exact haccount

/-- The done sequences of `running` are dropped. -/
theorem reap (hbooks : Books s) {pc : Pc α} {metrics : SchedulerMetrics}
    (hcancelled : metrics.cancelledSequences = s.metrics.cancelledSequences)
    (hidle : s.pc.items = none) (hidle' : pc.items = none)
    (hpending : pc.pending = s.pc.pending) (hcandidate : pc.candidate = s.pc.candidate) :
    Books { s.reapDoneSequences with metrics := metrics, pc := pc } := by
  have hperm : s.running.Perm
      (s.running.filter Sequence.isDone ++ s.running.filter fun seq ↦ !seq.isDone) :=
    (List.filter_append_perm _ _).symm
  have hold : s.holdings = _ := (Holding.all_running_perm hperm).trans (Holding.all_running_append _)
  have hnew : State.holdings { s.reapDoneSequences with metrics := metrics, pc := pc } = _ :=
    Holding.all_dropped_append _
  have hview : State.view { s.reapDoneSequences with metrics := metrics, pc := pc } = s.view :=
    funext fun client ↦ view_congr (inFlight_idle hidle hidle') rfl rfl hcancelled
  unfold Books at hbooks ⊢
  rw [hold] at hbooks
  rw [hnew, hview]
  change Custody _ _ _ _ _ (_ + Holding.all _ pc.pending pc.candidate _ _)
  rw [hpending, hcandidate]
  apply hbooks.exchange
  · simp only [Multiset.map_coe, List.map_map]
    rfl
  · exact fun _ _ ↦ rfl
  · intro entry hentry
    simp only [Multiset.mem_coe, List.mem_map] at hentry
    obtain ⟨_, ⟨seq, hseq, rfl⟩, rfl⟩ := hentry
    have hagrees := hbooks.agrees (.running seq) (Multiset.mem_add.mpr
      (Or.inl (Multiset.mem_coe.mpr (List.mem_map_of_mem hseq))))
    exact hagrees.1

/-- The requests whose receivers are gone are dropped from the queue, and counted. -/
theorem prune (hbooks : Books s) {pruned : List (GenerationRequest α)} {queue : RequestQueue α}
    (hperm : s.queue.requests.Perm (pruned ++ queue.requests)) : Books (s.prune pruned queue) := by
  have hold : s.holdings = _ := (Holding.all_queue_perm hperm).trans (Holding.all_queue_append _)
  have hnew : (s.prune pruned queue).holdings = _ := Holding.all_dropped_append _
  have hview : ∀ client, (s.prune pruned queue).view client =
      ⟨(s.view client).outgoing, (s.view client).updates,
        (s.view client).cancelled + (pruned.map GenerationRequest.client).count client⟩ :=
    fun client ↦ view_counted rfl rfl rfl rfl
  unfold Books at hbooks ⊢
  rw [hold] at hbooks
  rw [hnew]
  have hnodup := hbooks.nodup_keys
  rw [Multiset.map_add, Multiset.nodup_add, Multiset.map_coe, List.map_map] at hnodup
  apply hbooks.exchange
  · simp only [Multiset.map_coe, List.map_map]
    rfl
  · intro other hother
    rw [hview]
    rw [Multiset.map_coe, List.map_map, Multiset.mem_coe] at hother
    have hzero : (pruned.map GenerationRequest.client).count other = 0 :=
      List.count_eq_zero.mpr hother
    rw [hzero]
    rfl
  · intro entry hentry
    simp only [Multiset.mem_coe, List.mem_map] at hentry
    obtain ⟨_, ⟨req, hreq, rfl⟩, rfl⟩ := hentry
    have hblank : s.view req.client = .blank := hbooks.agrees (.waiting req) (Multiset.mem_add.mpr
      (Or.inl (Multiset.mem_coe.mpr (List.mem_map_of_mem hreq))))
    have hcount := List.nodup_iff_count_le_one.mp (Multiset.coe_nodup.mp hnodup.1) req.client
    change Holding.Agrees _ ((s.prune pruned queue).view req.client)
    rw [hview, hblank]
    refine ⟨rfl, Or.inl rfl, ?_⟩
    change 0 + _ ≤ 1
    rw [Nat.zero_add]
    exact hcount

/-- A request is accepted. -/
theorem accept (hbooks : Books s) {req : GenerationRequest α}
    (hnew : req.client ∉ s.history.accepted.map GenerationRequest.client)
    (hholdings : s'.holdings = .waiting req ::ₘ s.holdings)
    (haccepted : s'.history.accepted = s.history.accepted ++ [req])
    (hview : ∀ client, s'.view client = s.view client) : Books s' := by
  unfold Books at hbooks ⊢
  rw [hholdings, haccepted, funext hview, List.map_append]
  have hfresh : (Holding.waiting req).client ∉ s.history.accepted.map GenerationRequest.client := hnew
  exact hbooks.admission hfresh rfl

end Books

/-! ## Every step keeps the books -/

section Step

variable {scheduler : Scheduler α} {s : State α}

theorem recordCancelled_nil (s : State α) : s.recordCancelled [] = s := by
  unfold State.recordCancelled SchedulerMetrics.recordCancelled
  rw [List.append_nil]

/-- A request that is given up by one of the checks, counted or not. -/
theorem books_abandon {site : Site α} {client : ClientId} {counted : List ClientId}
    (hbooks : Books s) (hidle : s.pc.items = none) (hpending : s.pc.pending = site.pending)
    (hcandidate : s.pc.candidate = site.candidate)
    (hclient : site.client s.running = some client)
    (hdone : ∀ index seq, site.Unvisited index → s.running[index]? = some seq → seq.isDone = false)
    (hcounted : counted = [] ∨ counted = [client]) :
    Books (abandon site (s.recordCancelled counted)) := by
  have hview : ∀ s' : State α, s'.pc.items = none → s'.clients = s.clients →
      s'.history.updates = s.history.updates →
      s'.metrics.cancelledSequences = s.metrics.cancelledSequences ++ counted →
      (∀ other ≠ client, s'.view other = s.view other) ∧
        (s.view client).GivenUp (s'.view client) := fun _ ↦ view_abandoned hcounted hidle
  have hrunning : ∀ index, (s.running[index]?).map Sequence.client = some client →
      site.Unvisited index → ∀ pc : Pc α, pc.items = none → pc.pending = site.pending →
      pc.candidate = site.candidate →
      Books (((s.recordCancelled counted).updateRunning index Sequence.cancel).goto pc) := by
    intro index hindex hunvisited pc hidle' hpending' hcandidate'
    obtain ⟨seq, hseq, rfl⟩ := Option.map_eq_some_iff.mp hindex
    obtain ⟨hothers, hself⟩ := hview
      (((s.recordCancelled counted).updateRunning index Sequence.cancel).goto pc) hidle' rfl rfl rfl
    have hholdings : State.holdings
        (((s.recordCancelled counted).updateRunning index Sequence.cancel).goto pc) =
        Holding.all s.queue.requests s.pc.pending s.pc.candidate (s.running.set index seq.cancel)
          s.history.resolved := by
      rw [← modify_eq_set hseq, hpending, hcandidate, ← hpending', ← hcandidate']
      rfl
    exact hbooks.giveUpRunning hseq (hdone index seq hunvisited hseq) seq.cancel_eq
      seq.cancel_isDone hholdings rfl hothers hself
  cases site with
  | removing index => exact hrunning index hclient (Nat.le_refl index) _ rfl rfl rfl
  | delivering index logits => exact hrunning index hclient (Nat.le_refl index) _ rfl rfl rfl
  | popped req =>
      obtain rfl := Option.some.inj hclient
      obtain ⟨hothers, hself⟩ := hview (abandon (.popped req) (s.recordCancelled counted)) rfl rfl
        rfl rfl
      have hholdings : (abandon (.popped req) (s.recordCancelled counted)).holdings =
          Holding.all s.queue.requests [] s.pc.candidate s.running
            (s.history.resolved ++ [.request req]) := by
        rw [hcandidate]
        rfl
      exact hbooks.dropRequest hpending hholdings rfl hothers hself
  | allocated seq | prefilled seq =>
      obtain rfl := Option.some.inj hclient
      obtain ⟨hothers, hself⟩ := hview
        (((s.recordCancelled counted).release seq.cancel).goto .admission) rfl rfl rfl rfl
      have hholdings : State.holdings
          (((s.recordCancelled counted).release seq.cancel).goto .admission) =
          Holding.all s.queue.requests s.pc.pending none s.running
            (s.history.resolved ++ [.sequence seq.cancel]) := by
        rw [hpending]
        rfl
      exact hbooks.dropCandidate hcandidate seq.cancel_eq hholdings rfl hothers hself

/-- An answered sequence of `running` is failed, and the loop goes on behind it. -/
theorem books_answerAt {index : ℕ} {seq : Sequence α} {message : String} {pc : Pc α}
    (hbooks : Books s) (hseq : s.running[index]? = some seq) (hdone : seq.isDone = false)
    (hidle : s.pc.items = none) (hidle' : pc.items = none) (hpending : pc.pending = s.pc.pending)
    (hcandidate : pc.candidate = s.pc.candidate) :
    Books (((s.trySendError seq.client message).updateRunning index Sequence.fail).goto pc) := by
  have hholdings : State.holdings
      (((s.trySendError seq.client message).updateRunning index Sequence.fail).goto pc) =
      Holding.all s.queue.requests s.pc.pending s.pc.candidate (s.running.set index seq.fail)
        s.history.resolved := by
    rw [← modify_eq_set hseq, ← hpending, ← hcandidate]
    rfl
  exact hbooks.giveUpRunning hseq hdone seq.fail_eq seq.fail_isDone hholdings rfl
    (fun other hother ↦ view_answered_of_ne hother hidle hidle' rfl rfl rfl)
    (view_answered hidle hidle' rfl rfl rfl)

theorem books_endStep (hbooks : Books s) (hidle : s.pc.items = none)
    (hpending : s.pc.pending = []) (hcandidate : s.pc.candidate = none) : Books (endStep s) :=
  hbooks.reap rfl hidle rfl hpending.symm hcandidate.symm

theorem books_proceed {site : Site α} {client : ClientId} (hbooks : Books s)
    (hpc : s.pc = .checkClosed site client) : Books (proceed site s) := by
  have hidle : s.pc.items = none := by rw [hpc]; rfl
  cases site with
  | removing index => exact hbooks.goto hidle rfl (by rw [hpc]; rfl) (by rw [hpc]; rfl)
  | popped req => exact hbooks.goto hidle rfl (by rw [hpc]; rfl) (by rw [hpc]; rfl)
  | allocated seq => exact hbooks.goto hidle rfl (by rw [hpc]; rfl) (by rw [hpc]; rfl)
  | delivering index logits => exact hbooks.goto hidle rfl (by rw [hpc]; rfl) (by rw [hpc]; rfl)
  | prefilled seq =>
      have hold : s.holdings = .admitting seq ::ₘ Holding.all s.queue.requests [] none s.running
          s.history.resolved := by
        unfold State.holdings
        rw [hpc]
        exact Holding.all_candidate seq
      have hnew : (proceed (.prefilled seq) s).holdings = .running seq ::ₘ
          Holding.all s.queue.requests [] none s.running s.history.resolved :=
        Holding.all_running (List.perm_append_singleton seq s.running)
      have hview : ∀ other, (proceed (.prefilled seq) s).view other = s.view other :=
        fun _ ↦ view_congr (inFlight_idle hidle rfl) rfl rfl rfl
      have hagrees : (Holding.admitting seq).Agrees (s.view seq.client) →
          (Holding.running seq).Agrees ((proceed (.prefilled seq) s).view seq.client) := by
        rintro ⟨hblank, hunstarted⟩
        rw [hview, hblank]
        exact ⟨hunstarted.live.account, fun _ ↦ hunstarted.live⟩
      exact hbooks.replace hold hnew rfl rfl (fun other _ ↦ hview other) hagrees

/-- `try_pop` counts and drops the requests whose receivers are gone. -/
theorem books_tryPop (hbooks : Books s) (hpc : s.pc = .admission) (late : List ClientId) :
    Books (tryPop late s) := by
  have hsplit : s.queue.requests.Perm
      (s.queue.pruned (s.isOpen late) ++ (s.queue.retainOpen (s.isOpen late)).requests) :=
    (List.perm_append_comm.trans (s.queue.retainOpen_append_pruned_perm _)).symm
  have hpruned := hbooks.prune hsplit
  have hidle : s.pc.items = none := by rw [hpc]; rfl
  unfold tryPop
  rcases RequestQueue.tryPop_cases (s.isOpen late) s.queue with
    ⟨hpop, -⟩ | ⟨req, rest, hpop, hperm⟩
  · rw [hpop]
    have hholdings : State.holdings (endAdmission (s.prune (s.queue.pruned (s.isOpen late))
        (s.queue.retainOpen (s.isOpen late)))) = State.holdings
        (s.prune (s.queue.pruned (s.isOpen late)) (s.queue.retainOpen (s.isOpen late))) := by
      change _ = Holding.all _ s.pc.pending s.pc.candidate _ _
      rw [hpc]
      rfl
    exact hpruned.same hholdings rfl fun _ ↦ view_congr (inFlight_idle hidle rfl) rfl rfl rfl
  · rw [hpop]
    have hholdings : State.holdings ((s.prune (s.queue.pruned (s.isOpen late))
        { s.queue.retainOpen (s.isOpen late) with requests := rest }).goto
          (.checkDone (.popped req))) = State.holdings
        (s.prune (s.queue.pruned (s.isOpen late)) (s.queue.retainOpen (s.isOpen late))) :=
      calc Holding.all rest [req] none s.running _
          = Holding.all (req :: rest) [] none s.running _ := Holding.all_take [req]
        _ = Holding.all (s.queue.retainOpen (s.isOpen late)).requests [] none s.running _ :=
            Holding.all_queue_perm hperm
        _ = Holding.all (s.queue.retainOpen (s.isOpen late)).requests s.pc.pending s.pc.candidate
              s.running _ := by
            rw [hpc]
            rfl
    exact hpruned.same hholdings rfl fun _ ↦ view_congr (inFlight_idle hidle rfl) rfl rfl rfl

theorem books_admitRequest {req : GenerationRequest α} (hbooks : Books s)
    (hpc : s.pc = .admitRequest req) : Books (admitRequest scheduler req s) := by
  have hidle : s.pc.items = none := by rw [hpc]; rfl
  have hanswered : ∀ (message : String) (kvCache : SlabKvCache (KvTensor α)),
      Books ((({ s with kvCache := kvCache }.trySendError req.client message).resolve
        [.request req]).goto .admission) := by
    intro message kvCache
    have hpending : s.pc.pending = [req] := by rw [hpc]; rfl
    have hholdings : State.holdings ((({ s with kvCache := kvCache }.trySendError req.client
        message).resolve [.request req]).goto .admission) = Holding.all s.queue.requests []
          s.pc.candidate s.running (s.history.resolved ++ [.request req]) := by
      rw [hpc]
      rfl
    exact hbooks.dropRequest hpending hholdings rfl
      (fun other hother ↦ view_answered_of_ne hother hidle rfl rfl rfl rfl)
      (view_answered hidle rfl rfl rfl rfl)
  unfold admitRequest
  split
  · exact hanswered _ s.kvCache
  · split
    · exact hanswered _ _
    · rename_i seq kvCache hnew
      obtain ⟨handle, rfl⟩ := Sequence.exists_ofRequest_of_new hnew
      have hold : s.holdings = .waiting req ::ₘ Holding.all s.queue.requests [] none s.running
          s.history.resolved := by
        unfold State.holdings
        rw [hpc]
        exact Holding.all_pending req
      have hview : ∀ other, State.view
          { s with kvCache := kvCache, pc := .checkDone (.allocated (.ofRequest req handle)) } other =
          s.view other := fun _ ↦ view_congr (inFlight_idle hidle rfl) rfl rfl rfl
      have hnew : State.holdings
          { s with kvCache := kvCache, pc := .checkDone (.allocated (.ofRequest req handle)) } =
          .admitting (.ofRequest req handle) ::ₘ Holding.all s.queue.requests [] none s.running
            s.history.resolved := Holding.all_candidate _
      exact hbooks.replace hold hnew rfl rfl (fun other _ ↦ hview other) fun hblank ↦
        ⟨(hview req.client).trans hblank, rfl, rfl, rfl⟩

theorem books_answerQueued {drained : List (GenerationRequest α)} (hbooks : Books s)
    (hpc : s.pc = .answerQueued drained) : Books (answerQueued drained s) := by
  have hidle : s.pc.items = none := by rw [hpc]; rfl
  cases drained with
  | nil => exact hbooks.goto hidle rfl (by rw [hpc]; rfl) (by rw [hpc]; rfl)
  | cons req rest =>
      have hpending : s.pc.pending = req :: rest := by rw [hpc]; rfl
      have hholdings : (answerQueued (req :: rest) s).holdings = Holding.all s.queue.requests rest
          s.pc.candidate s.running (s.history.resolved ++ [.request req]) := by
        rw [hpc]
        rfl
      exact hbooks.dropRequest hpending hholdings rfl
        (fun other hother ↦ view_answered_of_ne hother hidle rfl rfl rfl rfl)
        (view_answered hidle rfl rfl rfl rfl)

theorem books_evictAt {index : ℕ} (hbooks : Books s) (hpc : s.pc = .evict index)
    (hdone : ∀ seq, s.running[index]? = some seq → seq.isDone = false) :
    Books (evictAt scheduler index s) := by
  have hidle : s.pc.items = none := by rw [hpc]; rfl
  unfold evictAt
  split
  · have hreaped : ∀ pc : Pc α, pc.items = none → pc.pending = [] → pc.candidate = none →
        Books (s.reapDoneSequences.goto pc) := fun pc hidle' hpending hcandidate ↦
      hbooks.reap rfl hidle hidle' (by rw [hpending, hpc]; rfl) (by rw [hcandidate, hpc]; rfl)
    dsimp only
    split
    · exact hreaped .idleCheck rfl rfl rfl
    · exact hreaped .forward rfl rfl rfl
  · rename_i seq hseq
    dsimp only
    split
    · exact books_answerAt hbooks hseq (hdone seq hseq) hidle rfl (by rw [hpc]; rfl)
        (by rw [hpc]; rfl)
    · exact hbooks.goto hidle rfl (by rw [hpc]; rfl) (by rw [hpc]; rfl)

theorem books_failBatchAt {index : ℕ} {message : String} (hbooks : Books s)
    (hpc : s.pc = .failBatch index message)
    (hdone : ∀ seq, s.running[index]? = some seq → seq.isDone = false) :
    Books (failBatchAt index message s) := by
  have hidle : s.pc.items = none := by rw [hpc]; rfl
  unfold failBatchAt
  split
  · exact books_endStep hbooks hidle (by rw [hpc]; rfl) (by rw [hpc]; rfl)
  · rename_i seq hseq
    exact books_answerAt hbooks hseq (hdone seq hseq) hidle rfl (by rw [hpc]; rfl)
      (by rw [hpc]; rfl)

/-- Sending an item only moves it from where it lay reserved. -/
theorem view_sendItems {index : ℕ} {logits : List (LogitRow α)} {item : StreamItem}
    {rest : List StreamItem} {seq : Sequence α} (hpc : s.pc = .sendItems index logits (item :: rest))
    (hseq : s.running[index]? = some seq) (client : ClientId) :
    State.view ((s.updateClient seq.client (Client.send item)).goto (.sendItems index logits rest))
      client = s.view client := by
  have hbefore := inFlight_sendItems hpc client
  have hafter : State.inFlight ((s.updateClient seq.client (Client.send item)).goto
      (.sendItems index logits rest)) client =
      if (s.running[index]?).map Sequence.client = some client then rest else [] :=
    inFlight_sendItems rfl client
  rw [hseq, Option.map_some] at hbefore hafter
  by_cases hclient : client = seq.client
  · rw [hclient, if_pos rfl] at hbefore hafter
    have hsent : (((s.updateClient seq.client (Client.send item)).goto
        (.sendItems index logits rest)).clients seq.client).sent =
        (s.clients seq.client).sent ++ [item] :=
      congrArg Client.sent (clients_updateClient_self seq.client (Client.send item))
    rw [hclient]
    unfold State.view
    rw [hbefore, hafter, hsent, List.append_assoc]
    rfl
  · have hother : some seq.client ≠ some client := fun heq ↦ hclient (Option.some.inj heq).symm
    rw [if_neg hother] at hbefore hafter
    exact view_congr (hafter.trans hbefore.symm)
      (congrArg Client.sent (clients_updateClient_of_ne hclient _)) rfl rfl

/-- The last item of an update has been sent. -/
theorem view_sendItems_end {index : ℕ} {logits : List (LogitRow α)} {items : List StreamItem}
    (hpc : s.pc = .sendItems index logits items) (hend : s.running[index]? = none ∨ items = [])
    (client : ClientId) :
    State.view (s.goto (.checkDone (.delivering (index + 1) logits))) client = s.view client := by
  have hnone : s.inFlight client = [] := by
    rw [inFlight_sendItems hpc]
    rcases hend with hseq | rfl
    · rw [hseq]
      exact if_neg fun heq ↦ nomatch heq
    · exact ite_self _
  exact view_congr ((inFlight_of_idle rfl client).trans hnone.symm) rfl rfl rfl

/-- A delivery that is under way counts as done. -/
theorem books_sendItems {index : ℕ} {logits : List (LogitRow α)} {items : List StreamItem}
    (hbooks : Books s) (hpc : s.pc = .sendItems index logits items) :
    Books (sendItems index logits items s) := by
  have hholdings : ∀ s' : State α, s'.queue = s.queue → s'.running = s.running →
      s'.history.resolved = s.history.resolved → s'.pc.pending = [] → s'.pc.candidate = none →
      s'.holdings = s.holdings := by
    intro s' hqueue hrunning hresolved hpending hcandidate
    unfold State.holdings
    rw [hqueue, hrunning, hresolved, hpending, hcandidate, hpc]
    rfl
  unfold sendItems
  cases hseq : s.running[index]? with
  | none =>
      exact hbooks.same (hholdings _ rfl rfl rfl rfl rfl) rfl (view_sendItems_end hpc (Or.inl hseq))
  | some seq =>
      cases items with
      | nil =>
          exact hbooks.same (hholdings _ rfl rfl rfl rfl rfl) rfl
            (view_sendItems_end hpc (Or.inr rfl))
      | cons item rest =>
          exact hbooks.same (hholdings _ rfl rfl rfl rfl rfl) rfl (view_sendItems hpc hseq)

theorem books_answerRunning (hbooks : Books s) (hpc : s.pc = .answerRunning)
    (hdone : ∀ seq ∈ s.running, seq.isDone = false) : Books (answerRunning s) := by
  have hidle : s.pc.items = none := by rw [hpc]; rfl
  unfold answerRunning
  split
  · refine hbooks.same ?_ rfl fun _ ↦ view_congr (inFlight_idle hidle rfl) rfl rfl rfl
    unfold State.holdings
    rw [hpc]
    rfl
  · rename_i seq rest hrunning
    have hold : s.holdings = .running seq ::ₘ Holding.all s.queue.requests s.pc.pending
        s.pc.candidate rest s.history.resolved := by
      unfold State.holdings
      exact Holding.all_running (hrunning ▸ List.Perm.refl _)
    have hnew : State.holdings ((({ s with running := rest }.trySendError seq.client
        shutdownMessage).release seq).goto .answerRunning) = .resolved (.sequence seq) ::ₘ
        Holding.all s.queue.requests s.pc.pending s.pc.candidate rest s.history.resolved := by
      rw [hpc]
      exact Holding.all_dropped _
    have hseq : seq.isDone = false := hdone seq (hrunning ▸ List.mem_cons_self)
    have hgivenUp : (s.view seq.client).GivenUp (State.view ((({ s with running :=
        rest }.trySendError seq.client shutdownMessage).release seq).goto .answerRunning)
          seq.client) := view_answered hidle rfl rfl rfl rfl
    exact hbooks.replace hold hnew rfl rfl
      (fun other hother ↦ view_answered_of_ne hother hidle rfl rfl rfl rfl)
      fun hrunning ↦ (hrunning.2 hseq).giveUp hgivenUp seq.state

section Pass

variable [Kernels α] {origin : SlabKvCache (KvTensor α)}

theorem books_prefill {seq : Sequence α} (hbooks : Books s) (hpc : s.pc = .prefill seq) :
    Books (prefill scheduler seq s) := by
  have hidle : s.pc.items = none := by rw [hpc]; rfl
  have hcandidate : s.pc.candidate = some seq := by rw [hpc]; rfl
  unfold prefill
  split
  · rename_i err kvCache _
    have hholdings : State.holdings ((({ s with kvCache := kvCache }.trySendError seq.client
        s!"failed to prefill request {seq.id}: {err.message}").release seq.fail).goto .admission) =
        Holding.all s.queue.requests s.pc.pending none s.running
          (s.history.resolved ++ [.sequence seq.fail]) := by
      rw [hpc]
      rfl
    exact hbooks.dropCandidate hcandidate seq.fail_eq hholdings rfl
      (fun other hother ↦ view_answered_of_ne hother hidle rfl rfl rfl rfl)
      (view_answered hidle rfl rfl rfl rfl)
  · rename_i kvCache _
    have hview : ∀ other, State.view
        { s with kvCache := kvCache, pc := .checkDone (.prefilled seq.markRunning) } other =
        s.view other := fun _ ↦ view_congr (inFlight_idle hidle rfl) rfl rfl rfl
    have hold : s.holdings = .admitting seq ::ₘ Holding.all s.queue.requests [] none s.running
        s.history.resolved := by
      unfold State.holdings
      rw [hpc]
      exact Holding.all_candidate seq
    have hnew : State.holdings
        { s with kvCache := kvCache, pc := .checkDone (.prefilled seq.markRunning) } =
        .admitting seq.markRunning ::ₘ Holding.all s.queue.requests [] none s.running
          s.history.resolved := Holding.all_candidate _
    have hagrees : (Holding.admitting seq).Agrees (s.view seq.client) →
        (Holding.admitting seq.markRunning).Agrees (s.view seq.client) := by
      rintro ⟨hblank, hunstarted⟩
      rw [seq.markRunning_eq]
      exact ⟨hblank, hunstarted.withState _⟩
    exact hbooks.replace hold hnew rfl seq.markRunning_client (fun other _ ↦ hview other)
      fun hadmitting ↦ hview seq.client ▸ hagrees hadmitting

/-- The pass itself only changes tensors. -/
theorem books_forward (hbooks : Books s) (hpc : s.pc = .forward) : Books (forward scheduler s) := by
  have hidle : s.pc.items = none := by rw [hpc]; rfl
  have hmoved : ∀ (kvCache : SlabKvCache (KvTensor α)) (pc : Pc α), pc.items = none →
      pc.pending = [] → pc.candidate = none → Books { s with kvCache := kvCache, pc := pc } := by
    intro kvCache pc hidle' hpending hcandidate
    have hgoto : Books (s.goto pc) :=
      hbooks.goto hidle hidle' (by rw [hpending, hpc]; rfl) (by rw [hcandidate, hpc]; rfl)
    exact hgoto
  unfold forward
  split
  · exact hmoved _ _ rfl rfl rfl
  · exact hmoved _ _ rfl rfl rfl

omit [Kernels α] in
/-- One more update is recorded, and its items lie in reserved places if it is delivered. -/
theorem view_recorded {s' : State α} {update : Update} {items : List StreamItem} {count : ℕ}
    {client : ClientId} (hsent : s'.clients = s.clients)
    (hflight : s'.inFlight client = s.inFlight client ++ items)
    (hupdates : s'.history.updates = s.history.updates ++ [update])
    (hcancelled : s'.metrics.cancelledSequences.count client =
      s.metrics.cancelledSequences.count client + count) :
    s'.view client = ⟨(s.view client).outgoing ++ items,
      (s.view client).updates ++ (if update.client = client then [update] else []),
      (s.view client).cancelled + count⟩ := by
  unfold State.view
  rw [hsent, hflight, hupdates, hcancelled, List.filter_append, List.append_assoc]
  by_cases hclient : update.client = client
  · simp [hclient]
  · simp [hclient]

omit [Kernels α] in
/-- An update is seen by its own client. A refused one is counted, and sends nothing. -/
theorem view_updated {s' : State α} {index : ℕ} {seq after : Sequence α} {update : Update}
    (hidle : s.pc.items = none) (hseq : s.running[index]? = some seq)
    (hself : update.client = seq.client) (hafter : after.client = seq.client)
    (hitems : s'.pc.items = if update.delivered then some (index, update.items) else none)
    (hrunning : s'.running = s.running.set index after) (hclients : s'.clients = s.clients)
    (hupdates : s'.history.updates = s.history.updates ++ [update])
    (hcancelled : s'.metrics.cancelledSequences =
      s.metrics.cancelledSequences ++ if update.delivered then [] else [seq.client]) :
    (∀ other ≠ seq.client, s'.view other = s.view other) ∧
      s'.view seq.client = ⟨(s.view seq.client).outgoing ++ (if update.delivered then update.items else []),
        (s.view seq.client).updates ++ [update],
        (s.view seq.client).cancelled + if update.delivered then 0 else 1⟩ := by
  obtain ⟨hlt, hget⟩ := List.getElem?_eq_some_iff.mp hseq
  have hflight : ∀ client, s'.inFlight client = s.inFlight client ++
      if client = seq.client ∧ update.delivered then update.items else [] := by
    intro client
    rw [inFlight_of_idle hidle, List.nil_append]
    unfold State.inFlight
    rw [hitems, hrunning]
    cases update.delivered with
    | false => simp
    | true =>
        simp only [List.getElem?_set_self hlt, Option.map_some, hafter, Option.some.injEq,
          and_true, if_true, eq_comm]
  have hcount : ∀ client, s'.metrics.cancelledSequences.count client =
      s.metrics.cancelledSequences.count client +
        if client = seq.client ∧ update.delivered = false then 1 else 0 := by
    intro client
    rw [hcancelled, List.count_append]
    cases update.delivered with
    | false =>
        by_cases heq : client = seq.client
        · simp [heq]
        · have hnone : [seq.client].count client = 0 :=
            List.count_eq_zero.mpr fun hmem ↦ heq (List.mem_singleton.mp hmem)
          simp [heq, hnone]
    | true => simp
  have hview : ∀ client, s'.view client = _ := fun client ↦
    view_recorded hclients (hflight client) hupdates (hcount client)
  constructor
  · intro other hother
    rw [hview, if_neg fun hand ↦ hother hand.1, hself, if_neg (Ne.symm hother),
      if_neg fun hand ↦ hother hand.1, List.append_nil, List.append_nil]
    rfl
  · rw [hview, if_pos hself]
    cases update.delivered <;> simp

/-- An update is delivered as a whole, or it is refused and the last one. -/
theorem books_update {s' : State α} {index : ℕ} {seq stepped after : Sequence α} {row : LogitRow α}
    {tokens : List Token} {delivered : Bool} (hbooks : Books s) (hidle : s.pc.items = none)
    (hpending : s'.pc.pending = s.pc.pending) (hcandidate : s'.pc.candidate = s.pc.candidate)
    (hseq : s.running[index]? = some seq) (hdone : seq.isDone = false)
    (hadvance : seq.advance row = some (tokens, stepped))
    (hafter : after = { stepped with state := after.state })
    (hgoesOn : after.isDone = false → delivered = true ∧ after = stepped)
    (hitems : s'.pc.items =
      if delivered then some (index, updateItems tokens stepped.finishReason) else none)
    (hrunning : s'.running = s.running.set index after) (hclients : s'.clients = s.clients)
    (hqueue : s'.queue = s.queue) (haccepted : s'.history.accepted = s.history.accepted)
    (hresolved : s'.history.resolved = s.history.resolved)
    (hupdates : s'.history.updates =
      s.history.updates ++ [⟨seq.client, tokens, stepped.finishReason, delivered⟩])
    (hcancelled : s'.metrics.cancelledSequences =
      s.metrics.cancelledSequences ++ if delivered then [] else [seq.client]) : Books s' := by
  obtain ⟨hlt, hget⟩ := List.getElem?_eq_some_iff.mp hseq
  have hclient : after.client = seq.client := by
    obtain ⟨-, -, -, hclient, -, -, -⟩ := Sequence.advance_frame hadvance
    rw [hafter]
    exact hclient
  have hperm : s.running.Perm (seq :: s.running.eraseIdx index) := by
    rw [← hget]
    exact (List.getElem_cons_eraseIdx_perm hlt).symm
  have hnew : s'.holdings = .running after ::ₘ Holding.all s.queue.requests s.pc.pending
      s.pc.candidate (s.running.eraseIdx index) s.history.resolved := by
    unfold State.holdings
    rw [hqueue, hpending, hcandidate, hrunning, hresolved]
    exact Holding.all_running (List.set_perm_cons_eraseIdx hlt after)
  obtain ⟨hothers, hview⟩ :=
    view_updated hidle hseq rfl hclient hitems hrunning hclients hupdates hcancelled
  refine hbooks.replace (Holding.all_running hperm) hnew haccepted hclient hothers fun hagrees ↦ ?_
  have hlive : seq.Live (s.view seq.client) := hagrees.2 hdone
  change (Holding.running after).Agrees (s'.view seq.client)
  rw [hview]
  constructor
  · rw [hafter]
    apply hlive.advance_account hadvance
    split <;> simp
  · intro hnot
    obtain ⟨rfl, rfl⟩ := hgoesOn hnot
    exact hlive.advance hadvance seq.client hnot

theorem books_sampleToken {index : ℕ} {logits : List (LogitRow α)} (hbooks : Books s)
    (hpc : s.pc = .sampleToken index logits)
    (hdone : ∀ seq, s.running[index]? = some seq → seq.isDone = false) :
    Books (sampleToken index logits s) := by
  have hidle : s.pc.items = none := by rw [hpc]; rfl
  have hpending : s.pc.pending = [] := by rw [hpc]; rfl
  have hcandidate : s.pc.candidate = none := by rw [hpc]; rfl
  unfold sampleToken
  split
  · exact books_endStep hbooks hidle hpending hcandidate
  rename_i seq hseq
  split
  · exact books_answerAt hbooks hseq (hdone seq hseq) hidle rfl hpending.symm hcandidate.symm
  split
  · exact hbooks.goto hidle rfl hpending.symm hcandidate.symm
  rename_i tokens stepped hadvance
  dsimp only
  cases (s.clients seq.client).tryReserveMany (updateItems tokens stepped.finishReason).length with
  | true =>
      exact books_update hbooks hidle hpending.symm hcandidate.symm hseq (hdone seq hseq)
        hadvance rfl (fun _ ↦ ⟨rfl, rfl⟩) rfl rfl rfl rfl rfl rfl rfl (List.append_nil _).symm
  | false =>
      have hstopped : stepped.cancel.isDone = false → false = true ∧ stepped.cancel = stepped := by
        intro hnot
        rw [stepped.cancel_isDone] at hnot
        cases hnot
      exact books_update hbooks hidle hpending.symm hcandidate.symm hseq (hdone seq hseq)
        hadvance stepped.cancel_eq hstopped rfl rfl rfl rfl rfl rfl rfl rfl

/-- **Every step of the scheduler keeps the books.** -/
theorem books_schedStep {late : List ClientId} {s' : State α} (hbooks : Books s)
    (hslots : Slots scheduler origin s.pc s.running s.kvCache)
    (hplaced : Placed s.pc s.running s.queue) (hstep : SchedStep scheduler late s s') : Books s' := by
  have hmoved : ∀ {pc pc' : Pc α}, s.pc = pc → pc.items = none → pc'.items = none →
      pc'.pending = pc.pending → pc'.candidate = pc.candidate → Books (s.goto pc') := by
    intro pc pc' hpc hidle hidle' hpending hcandidate
    subst hpc
    exact hbooks.goto hidle hidle' hpending hcandidate
  cases hstep with
  | stop hpc _ => exact hmoved hpc rfl rfl rfl rfl
  | enter hpc => exact hmoved hpc rfl rfl rfl rfl
  | @endLoop site hpc hclient =>
      have hidle : s.pc.items = none := by rw [hpc]; rfl
      cases site with
      | removing index => exact hbooks.reap rfl hidle rfl (by rw [hpc]; rfl) (by rw [hpc]; rfl)
      | delivering index logits =>
          exact books_endStep hbooks hidle (by rw [hpc]; rfl) (by rw [hpc]; rfl)
      | popped req => cases hclient
      | allocated seq => cases hclient
      | prefilled seq => cases hclient
  | @responseDone site client hpc hclient _ =>
      have habandon : Books (abandon site (s.recordCancelled [])) := by
        apply books_abandon hbooks _ _ _ hclient _ (Or.inl rfl)
        · rw [hpc]
          rfl
        · rw [hpc]
          rfl
        · rw [hpc]
          rfl
        · exact fun index seq hunvisited hseq ↦ hslots.notDone_at hpc hseq hunvisited
      rwa [recordCancelled_nil] at habandon
  | responseWanted hpc _ _ => exact hmoved hpc rfl rfl rfl rfl
  | @closed site client hpc _ =>
      have hclient : site.client s.running = some client := by
        rw [hpc] at hplaced
        exact hplaced
      apply books_abandon hbooks _ _ _ hclient _ (Or.inr rfl)
      · rw [hpc]
        rfl
      · rw [hpc]
        rfl
      · rw [hpc]
        rfl
      · exact fun index seq hunvisited hseq ↦ hslots.notDone_at hpc hseq hunvisited
  | stillOpen hpc _ => exact books_proceed hbooks hpc
  | full hpc =>
      have hgoto : Books (s.goto (.evict 0)) := hmoved hpc rfl rfl rfl rfl
      exact hgoto
  | tryPop hpc _ => exact books_tryPop hbooks hpc late
  | admitRequest hpc => exact books_admitRequest hbooks hpc
  | prefill hpc => exact books_prefill hbooks hpc
  | evict hpc => exact books_evictAt hbooks hpc fun _ hseq ↦ hslots.notDone_at hpc hseq (Nat.le_refl _)
  | park hpc _ => exact hmoved hpc rfl rfl rfl rfl
  | resume hpc => exact hmoved hpc rfl rfl rfl rfl
  | wake hpc _ =>
      have hgoto : Books (s.goto .idleCheck) := hmoved hpc rfl rfl rfl rfl
      exact hgoto
  | forward hpc => exact books_forward hbooks hpc
  | failBatch hpc => exact books_failBatchAt hbooks hpc fun _ hseq ↦ hslots.notDone_at hpc hseq (Nat.le_refl _)
  | sampleToken hpc => exact books_sampleToken hbooks hpc fun _ hseq ↦ hslots.notDone_at hpc hseq (Nat.le_refl _)
  | sendItems hpc => exact books_sendItems hbooks hpc
  | closeQueue hpc =>
      have hidle : s.pc.items = none := by rw [hpc]; rfl
      have hholdings : (closeQueue s).holdings = s.holdings :=
        calc Holding.all [] s.queue.requests none s.running s.history.resolved
            = Holding.all [] (s.queue.requests ++ []) none s.running s.history.resolved := by
              rw [List.append_nil]
          _ = Holding.all (s.queue.requests ++ []) [] none s.running s.history.resolved :=
              Holding.all_take s.queue.requests
          _ = s.holdings := by
              unfold State.holdings
              rw [List.append_nil, hpc]
              rfl
      exact hbooks.same hholdings rfl fun _ ↦ view_congr (inFlight_idle hidle rfl) rfl rfl rfl
  | answerQueued hpc => exact books_answerQueued hbooks hpc
  | answerRunning hpc =>
      apply books_answerRunning hbooks hpc
      intro seq hseq
      obtain ⟨index, hindex⟩ := List.mem_iff_getElem?.mp hseq
      exact hslots.notDone_at hpc hindex trivial

/-- **Nobody else can falsify the books.** -/
theorem books_step {action : Action α} {s' : State α} (hbooks : Books s)
    (hslots : Slots scheduler origin s.pc s.running s.kvCache)
    (hplaced : Placed s.pc s.running s.queue) (hstep : step scheduler action s = some s') :
    Books s' := by
  have hsplit : ∀ late, s.queue.requests.Perm
      (s.queue.pruned (s.isOpen late) ++ (s.queue.retainOpen (s.isOpen late)).requests) := fun late ↦
    (List.perm_append_comm.trans (s.queue.retainOpen_append_pruned_perm _)).symm
  cases step_cases hstep with
  | sched hsched => exact books_schedStep hbooks hslots hplaced hsched
  | schedShutdown hpc _ =>
      rcases hpc with hpc | hpc
      · exact hbooks.goto (by rw [hpc]; rfl) rfl (by rw [hpc]; rfl) (by rw [hpc]; rfl)
      · exact hbooks.goto (by rw [hpc]; rfl) rfl (by rw [hpc]; rfl) (by rw [hpc]; rfl)
  | @refuse req late _ _ => exact (hbooks.prune (hsplit late)).same rfl rfl fun _ ↦ rfl
  | @accept req late hnew _ _ =>
      have hholdings : State.holdings (accept req (s.prune (s.queue.pruned (s.isOpen late))
          ((s.queue.retainOpen (s.isOpen late)).push req))) = .waiting req ::ₘ State.holdings
          (s.prune (s.queue.pruned (s.isOpen late)) (s.queue.retainOpen (s.isOpen late))) :=
        (Holding.all_queue_perm (List.perm_append_singleton req _)).trans (Holding.all_queue req)
      exact (hbooks.prune (hsplit late)).accept hnew.2 hholdings rfl fun _ ↦ rfl
  | notify _ => exact hbooks.same rfl rfl fun _ ↦ rfl
  | @client client action after hact =>
      exact hbooks.same rfl rfl fun other ↦ view_congr rfl (sent_of_act hact other) rfl rfl
  | shutdown => exact hbooks.same rfl rfl fun _ ↦ rfl

/-- The books of every reachable state are in order. -/
theorem books_reachable {allowed : State α → Action α → Prop} {maxDepth : ℕ}
    {capacity : ClientId → ℕ} {maxSeqs maxSeqLen numLayers nHeads headDim : ℕ}
    (hreach : Reaches scheduler allowed
      (init (.new maxSeqs maxSeqLen numLayers nHeads headDim) maxDepth capacity) s) : Books s := by
  refine hreach.invariant ?_ (Books.init _ _ _)
  intro before after action hbefore hbooks _ hnext
  exact books_step hbooks (slots_reachable hbefore) (placed_reachable hbefore) hnext

end Pass

end Step

end Scheduler

end HotBatch
