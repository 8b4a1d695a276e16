import HotBatch.Scheduler.Conservation

/-!
# Conservation of requests and the protocol of the channels

What the books say in the terms of the program. An accepted request is in the queue, being admitted,
drained by `close_and_drain` and waiting for its answer, in `running`, or resolved, and in one of
these only. Its channel carries tokens and then at most one terminal item, updates go out as a whole
or not at all, and a finish is announced after everything that the sequence may show.
-/

namespace HotBatch

/-- Tokens, and then at most one terminal item. -/
def WellFormed (items : List StreamItem) : Prop :=
  ∃ (tokens : List Token) (ends : List StreamItem), items = tokens.map .token ++ ends ∧ ends.length ≤ 1 ∧ ∀ token, .token token ∉ ends

/-- What has gone out at any earlier time was well formed too. -/
theorem WellFormed.of_append {items more : List StreamItem} (hformed : WellFormed (items ++ more)) :
    WellFormed items := by
  obtain ⟨tokens, ends, heq, hlength, hends⟩ := hformed
  rcases List.append_eq_append_iff.mp heq with ⟨middle, htokens, -⟩ | ⟨middle, hitems, hsplit⟩
  · obtain ⟨first, second, -, hfirst, -⟩ := List.map_eq_append_iff.mp htokens
    refine ⟨first, [], ?_, Nat.zero_le 1, fun _ ↦ List.not_mem_nil⟩
    rw [hfirst, List.append_nil]
  · refine ⟨tokens, middle, hitems, ?_, fun token htoken ↦ hends token ?_⟩
    · rw [hsplit, List.length_append] at hlength
      omega
    · rw [hsplit]
      exact List.mem_append_left _ htoken

theorem wellFormed_of_atMostOneError {items : List StreamItem} (herror : AtMostOneError items) :
    WellFormed items := by
  refine ⟨[], items, rfl, ?_, ?_⟩
  · rcases herror with rfl | ⟨message, rfl⟩
    · exact Nat.zero_le 1
    · exact Nat.le_refl 1
  · rcases herror with rfl | ⟨message, rfl⟩ <;> simp

namespace Scheduler

variable {α : Type}

/-! ## Places -/

def Site.admitting : Site α → Option ClientId
  | popped req => some req.client
  | allocated seq | prefilled seq => some seq.client
  | removing _ | delivering _ _ => none

namespace Pc

/-- The request that is being admitted. -/
def admitting : Pc α → Option ClientId
  | checkDone site | checkClosed site _ => site.admitting
  | admitRequest req => some req.client
  | prefill seq => some seq.client
  | _ => none

/-- The requests that `close_and_drain` has returned and that have not been answered. -/
def drained : Pc α → List (GenerationRequest α)
  | answerQueued drained => drained
  | _ => []

theorem Site.pending_append_candidate (site : Site α) :
    site.pending.map GenerationRequest.client ++ site.candidate.toList.map Sequence.client =
      site.admitting.toList := by
  cases site <;> rfl

theorem pending_append_candidate (pc : Pc α) :
    pc.pending.map GenerationRequest.client ++ pc.candidate.toList.map Sequence.client =
      pc.admitting.toList ++ pc.drained.map GenerationRequest.client := by
  cases pc with
  | checkDone site => exact (Site.pending_append_candidate site).trans (List.append_nil _).symm
  | checkClosed site client =>
      exact (Site.pending_append_candidate site).trans (List.append_nil _).symm
  | answerQueued drained => exact List.append_nil _
  | _ => rfl

end Pc

namespace State

/-- The requests that the scheduler has, by their clients: queued, being admitted, drained, running
and resolved. -/
def places (s : State α) : List ClientId :=
  s.queue.requests.map GenerationRequest.client ++ (s.pc.admitting.toList ++
    (s.pc.drained.map GenerationRequest.client ++ (s.running.map Sequence.client ++
      s.history.resolved.map Resolved.client)))

/-- The sequences that the scheduler has or had. -/
def Held (s : State α) (seq : Sequence α) : Prop :=
  seq ∈ s.running ∨ .sequence seq ∈ s.history.resolved

end State

theorem coe_places (s : State α) : (s.places : Multiset ClientId) = s.holdings.map Holding.client := by
  have hmiddle := congrArg (fun clients : List ClientId ↦ (clients : Multiset ClientId))
    s.pc.pending_append_candidate
  simp only [← Multiset.coe_add] at hmiddle
  unfold State.places State.holdings Holding.all
  simp only [Multiset.map_add, Multiset.map_coe, List.map_map, ← Multiset.coe_add]
  calc (s.queue.requests.map GenerationRequest.client : Multiset ClientId) +
          (s.pc.admitting.toList + (s.pc.drained.map GenerationRequest.client +
            (s.running.map Sequence.client + s.history.resolved.map Resolved.client)))
      = s.queue.requests.map GenerationRequest.client + ((s.pc.admitting.toList +
          s.pc.drained.map GenerationRequest.client) + s.running.map Sequence.client +
            s.history.resolved.map Resolved.client) := by abel
    _ = s.queue.requests.map GenerationRequest.client +
          ((s.pc.pending.map GenerationRequest.client +
            s.pc.candidate.toList.map Sequence.client) + s.running.map Sequence.client +
              s.history.resolved.map Resolved.client) := by rw [hmiddle]
    _ = _ := by
        simp only [← add_assoc]
        rfl

/-! ## What the books say about one channel -/

section Channels

variable {s : State α}

theorem Books.places_perm (hbooks : Books s) :
    s.places.Perm (s.history.accepted.map GenerationRequest.client) := by
  rw [← Multiset.coe_eq_coe, coe_places]
  exact hbooks.conserved

/-- A channel has no updates, or there is the account of its sequence. -/
theorem Books.view_cases (hbooks : Books s) (client : ClientId) :
    ((s.view client).updates = [] ∧ AtMostOneError (s.view client).outgoing ∧
        (s.view client).cancelled ≤ 1) ∨
      ∃ seq, s.Held seq ∧ seq.client = client ∧ seq.Account (s.view client) := by
  have hblank : ∀ view : View, view = .blank →
      view.updates = [] ∧ AtMostOneError view.outgoing ∧ view.cancelled ≤ 1 := by
    rintro view rfl
    exact ⟨rfl, Or.inl rfl, Nat.zero_le 1⟩
  by_cases hadmitted : client ∈ s.history.accepted.map GenerationRequest.client
  · obtain ⟨holding, hholding, rfl⟩ := hbooks.exists_entry hadmitted
    have hagrees := hbooks.agrees holding hholding
    unfold State.holdings Holding.all at hholding
    simp only [Multiset.mem_add, Multiset.mem_coe, List.mem_map] at hholding
    rcases hholding with (((⟨req, -, rfl⟩ | ⟨req, -, rfl⟩) | ⟨seq, -, rfl⟩) | ⟨seq, hseq, rfl⟩) |
      ⟨entry, hentry, rfl⟩
    · exact Or.inl (hblank _ hagrees)
    · exact Or.inl (hblank _ hagrees)
    · exact Or.inl (hblank _ hagrees.1)
    · exact Or.inr ⟨seq, Or.inl hseq, rfl, hagrees.1⟩
    · cases entry with
      | request req => exact Or.inl hagrees
      | sequence seq => exact Or.inr ⟨seq, Or.inr hentry, rfl, hagrees⟩
  · exact Or.inl (hblank _ (hbooks.untouched client hadmitted))

/-- A sequence that the scheduler has or had has an account. -/
theorem Books.account (hbooks : Books s) {seq : Sequence α} (hheld : s.Held seq) :
    seq.Account (s.view seq.client) := by
  rcases hheld with hseq | hseq
  · exact (hbooks.agrees _ (running_mem_holdings.mpr hseq)).1
  · exact hbooks.agrees _ (resolved_mem_holdings.mpr hseq)

theorem Books.wellFormed (hbooks : Books s) (client : ClientId) :
    WellFormed (s.clients client).sent := by
  have hformed : WellFormed ((s.clients client).sent ++ s.inFlight client) := by
    change WellFormed (s.view client).outgoing
    rcases hbooks.view_cases client with ⟨-, herror, -⟩ | ⟨seq, -, -, haccount⟩
    · exact wellFormed_of_atMostOneError herror
    · obtain ⟨tokens, ends, houtgoing, hlength, hends, -, -⟩ := haccount.outgoing
      exact ⟨tokens, ends, houtgoing, hlength, hends⟩
  exact hformed.of_append

theorem Books.delivered (hbooks : Books s) (client : ClientId) :
    ∃ errors, AtMostOneError errors ∧ (s.clients client).sent ++ s.inFlight client =
      ((s.history.updates.filter fun update ↦ update.client = client).filter
        Update.delivered).flatMap Update.items ++ errors := by
  rcases hbooks.view_cases client with ⟨hupdates, herror, -⟩ | ⟨seq, -, -, haccount⟩
  · refine ⟨(s.view client).outgoing, herror, ?_⟩
    change (s.view client).outgoing =
      ((s.view client).updates.filter Update.delivered).flatMap Update.items ++ _
    rw [hupdates]
    rfl
  · exact haccount.delivered

theorem Books.cancelled_le (hbooks : Books s) (client : ClientId) :
    s.metrics.cancelledSequences.count client ≤ 1 := by
  rcases hbooks.view_cases client with ⟨-, -, hcancelled⟩ | ⟨seq, -, -, haccount⟩
  · exact hcancelled
  · exact haccount.cancelled_le

/-- The tokens on a channel are the first ones of its sequence. -/
theorem Books.tokens_inOrder (hbooks : Books s) {seq : Sequence α} (hheld : s.Held seq)
    {token : Token} {before after : List StreamItem}
    (hsent : (s.clients seq.client).sent = before ++ .token token :: after) :
    ∃ tokens, before = tokens.map .token ∧ tokens ++ [token] <+: seq.generatedTokens := by
  obtain ⟨tokens, ends, houtgoing, -, hends, htokens, -⟩ := (hbooks.account hheld).outgoing
  have hsplit : before ++ .token token :: (after ++ s.inFlight seq.client) =
      tokens.map .token ++ ends := by
    rw [← houtgoing]
    change _ = (s.clients seq.client).sent ++ _
    rw [hsent, List.append_assoc, List.cons_append]
  rcases List.append_eq_append_iff.mp hsplit with ⟨middle, hmap, hmiddle⟩ | ⟨middle, -, hmiddle⟩
  · obtain ⟨first, second, rfl, hfirst, hsecond⟩ := List.map_eq_append_iff.mp hmap
    cases second with
    | nil =>
        rw [List.map_nil] at hsecond
        rw [← hsecond, List.nil_append] at hmiddle
        exact absurd (hmiddle ▸ List.mem_cons_self) (hends token)
    | cons next rest =>
        rw [← hsecond, List.map_cons, List.cons_append, List.cons.injEq] at hmiddle
        obtain rfl := StreamItem.token.inj hmiddle.1
        refine ⟨first, hfirst.symm, ?_⟩
        have hbegins : first ++ [token] <+: first ++ token :: rest := by simp
        exact hbegins.trans <| htokens.trans <| List.take_prefix _ _
  · refine absurd ?_ (hends token)
    rw [hmiddle]
    exact List.mem_append_right _ List.mem_cons_self

/-- A finish has been announced after everything that the sequence may show. -/
theorem Books.finished (hbooks : Books s) {client : ClientId} {reason : FinishReason}
    (hfinished : .finished reason ∈ (s.clients client).sent) :
    ∃ seq, s.Held seq ∧ seq.client = client ∧ seq.finishReason = some reason ∧
      (s.clients client).sent =
        (seq.generatedTokens.take seq.safeEnd).map .token ++ [.finished reason] := by
  have hbegins : (s.clients client).sent <+: (s.view client).outgoing := List.prefix_append _ _
  have hmem := hbegins.subset hfinished
  rcases hbooks.view_cases client with ⟨-, herror, -⟩ | ⟨seq, hheld, hclient, haccount⟩
  · rcases herror with hnone | ⟨message, hsome⟩
    · rw [hnone] at hmem
      cases hmem
    · rw [hsome] at hmem
      cases List.mem_singleton.mp hmem
  · obtain ⟨tokens, ends, houtgoing, hlength, -, -, hreason⟩ := haccount.outgoing
    rw [houtgoing] at hmem hbegins
    have hends : .finished reason ∈ ends := by
      rcases List.mem_append.mp hmem with htoken | hend
      · obtain ⟨token, -, heq⟩ := List.mem_map.mp htoken
        cases heq
      · exact hend
    obtain ⟨hseqReason, hemitted, htokens⟩ := hreason reason hends
    obtain rfl : ends = [.finished reason] := by
      obtain ⟨first, rest, rfl⟩ := List.exists_cons_of_ne_nil (List.ne_nil_of_mem hends)
      obtain rfl : rest = [] := by
        rw [List.length_cons] at hlength
        exact List.eq_nil_of_length_eq_zero (by omega)
      rw [List.mem_singleton.mp hends]
    refine ⟨seq, hheld, hclient, hseqReason, ?_⟩
    have htaken : seq.takenTokens = seq.generatedTokens.take seq.safeEnd := by
      unfold Sequence.takenTokens
      rw [hemitted]
    rw [htokens, htaken] at hbegins
    rcases List.prefix_concat_iff.mp hbegins with hall | hearlier
    · exact hall
    · obtain ⟨token, -, heq⟩ := List.mem_map.mp (hearlier.subset hfinished)
      cases heq

end Channels

/-! ## How a request leaves the queue -/

section Queue

variable {scheduler : Scheduler α} {s s' : State α}

theorem mem_retainOpen {req : GenerationRequest α} {late : List ClientId}
    (hreq : req ∈ s.queue.requests) (hopen : (s.clients req.client).receiverOpen = true) :
    req ∈ (s.queue.retainOpen (s.isOpen late)).requests := by
  apply List.mem_filter.mpr
  refine ⟨hreq, ?_⟩
  unfold State.isOpen Client.isClosed
  rw [hopen]
  rfl

/-- **A request whose receiver is open leaves the queue only when it is popped or drained.** -/
theorem leaves_queue [Kernels α] {action : Action α} (hstep : step scheduler action s = some s')
    {req : GenerationRequest α} (hreq : req ∈ s.queue.requests)
    (hopen : (s.clients req.client).receiverOpen = true) :
    req ∈ s'.queue.requests ∨ s.pc = .admission ∧ s'.pc = .checkDone (.popped req) ∨
      s.pc = .closeQueue ∧ s'.pc = .answerQueued s.queue.requests := by
  cases step_cases hstep with
  | @sched late _ hsched =>
      rcases frame_schedStep hsched with hframe | ⟨hpc, rfl⟩ | ⟨hpc, rfl⟩
      · rw [hframe.queue_eq]
        exact Or.inl hreq
      · have hmem : req ∈ (s.queue.retainOpen (s.isOpen late)).requests := mem_retainOpen hreq hopen
        unfold tryPop
        rcases RequestQueue.tryPop_cases (s.isOpen late) s.queue with
          ⟨hpop, -⟩ | ⟨popped, rest, hpop, hperm⟩
        · rw [hpop]
          exact Or.inl hmem
        · rw [hpop]
          rcases List.mem_cons.mp (hperm.mem_iff.mpr hmem) with rfl | hrest
          · exact Or.inr (Or.inl ⟨hpc, rfl⟩)
          · exact Or.inl hrest
      · exact Or.inr (Or.inr ⟨hpc, rfl⟩)
  | schedShutdown _ _ => exact Or.inl hreq
  | refuse _ _ => exact Or.inl (mem_retainOpen hreq hopen)
  | accept _ _ _ => exact Or.inl (List.mem_append_left _ (mem_retainOpen hreq hopen))
  | notify _ => exact Or.inl hreq
  | client _ => exact Or.inl hreq
  | shutdown => exact Or.inl hreq

/-- A closed queue accepts nothing. -/
theorem submit_closed [Kernels α] {req : GenerationRequest α} {late : List ClientId}
    (hclosed : s.queue.closed = true) (hstep : step scheduler (.submit req late) s = some s') :
    s'.history.accepted = s.history.accepted ∧
      s'.history.refused = s.history.refused ++ [req.client] := by
  cases step_cases hstep with
  | refuse _ _ => exact ⟨rfl, rfl⟩
  | accept _ hopen _ =>
      rw [hclosed] at hopen
      cases hopen

end Queue

/-- **Request conservation and the terminal-event protocol.** In every run, whatever submitters,
connections and the operator do between the steps of the scheduler:
every accepted request is in exactly one place; while its receiver is open it leaves the queue only
through `try_pop` or `close_and_drain`; after `run` has returned all accepted requests are resolved
and submits are refused; a channel carries tokens and then at most one terminal item; the items of
an update all go out or none does; the tokens on a channel are the first ones of its sequence, and a
finish comes directly after all that the sequence may show; no request is counted as cancelled
twice. -/
theorem requests_conserved [Kernels α] (scheduler : Scheduler α)
    (maxSeqs maxSeqLen numLayers nHeads headDim maxDepth : ℕ) (capacity : ClientId → ℕ) :
    ∀ s, Reaches scheduler Anything
        (init (.new maxSeqs maxSeqLen numLayers nHeads headDim) maxDepth capacity) s →
      ((s.history.accepted.map GenerationRequest.client).Nodup ∧
        s.places.Perm (s.history.accepted.map GenerationRequest.client) ∧
        (∀ action s', step scheduler action s = some s' → ∀ req ∈ s.queue.requests,
          (s.clients req.client).receiverOpen = true →
          req ∈ s'.queue.requests ∨ s.pc = .admission ∧ s'.pc = .checkDone (.popped req) ∨
            s.pc = .closeQueue ∧ s'.pc = .answerQueued s.queue.requests) ∧
        (s.pc = .returned →
          (s.history.resolved.map Resolved.client).Perm
              (s.history.accepted.map GenerationRequest.client) ∧
            ∀ req late s', step scheduler (.submit req late) s = some s' →
              s'.history.accepted = s.history.accepted ∧
                s'.history.refused = s.history.refused ++ [req.client])) ∧
      (∀ client, WellFormed (s.clients client).sent) ∧
      ((∀ client, ∃ errors, AtMostOneError errors ∧ (s.clients client).sent ++ s.inFlight client =
          ((s.history.updates.filter fun update ↦ update.client = client).filter
            Update.delivered).flatMap Update.items ++ errors) ∧
        (∀ seq, s.Held seq → ∀ before token after,
          (s.clients seq.client).sent = before ++ .token token :: after →
          ∃ tokens, before = tokens.map .token ∧ tokens ++ [token] <+: seq.generatedTokens) ∧
        ∀ client reason, .finished reason ∈ (s.clients client).sent →
          ∃ seq, s.Held seq ∧ seq.client = client ∧ seq.finishReason = some reason ∧
            (s.clients client).sent =
              (seq.generatedTokens.take seq.safeEnd).map .token ++ [.finished reason]) ∧
      ∀ client, s.metrics.cancelledSequences.count client ≤ 1 := by
  intro s hreach
  have hbooks := books_reachable hreach
  refine ⟨⟨hbooks.nodup, hbooks.places_perm, ?_, ?_⟩, hbooks.wellFormed, ⟨hbooks.delivered, ?_, ?_⟩,
    hbooks.cancelled_le⟩
  · exact fun action s' hstep req hreq hopen ↦ leaves_queue hstep hreq hopen
  · intro hreturned
    have hplaced := placed_reachable hreach
    rw [hreturned] at hplaced
    obtain ⟨⟨hclosed, hempty⟩, hrunning⟩ := hplaced
    constructor
    · have hperm := hbooks.places_perm
      unfold State.places at hperm
      rw [hempty, hrunning, hreturned] at hperm
      exact hperm
    · exact fun req late s' hstep ↦ submit_closed hclosed hstep
  · exact fun seq hheld before token after hsent ↦ hbooks.tokens_inOrder hheld hsent
  · exact fun client reason hfinished ↦ hbooks.finished hfinished

/-- A request is submitted, the server is shut down, and the scheduler drains the queue. -/
def drainActions : List (Action ℚ) :=
  [.submit ⟨"a", [1], tinyConfig, 0, 0, 0⟩ [], .shutdown, .sched [], .sched []]

def tinyDrained : State ℚ :=
  (Transition.run (step tinyScheduler) Anything drainActions tinyStart).getD tinyStart

/-- While the drained requests wait for their answers they are in no other place. -/
theorem drained_elsewhere :
    Reaches tinyScheduler Anything tinyStart tinyDrained ∧
      0 ∈ tinyDrained.history.accepted.map GenerationRequest.client ∧
      ¬ (0 ∈ tinyDrained.queue.requests.map GenerationRequest.client ∨
        tinyDrained.pc.admitting = some 0 ∨ 0 ∈ tinyDrained.running.map Sequence.client ∨
        0 ∈ tinyDrained.history.resolved.map Resolved.client) :=
  ⟨Transition.reaches_getD_run (by decide +kernel) tinyStart, by decide +kernel⟩

/-- One request is submitted and served until its first token is on the channel. -/
def tinyServed : State ℚ :=
  (Transition.run (step tinyScheduler) Anything
    (tinyActions ++ List.replicate 6 (.sched [])) tinyStart).getD tinyStart

theorem requests_conserved_tinyServed :
    (tinyServed.clients 0).sent ≠ [] ∧ WellFormed (tinyServed.clients 0).sent ∧
      tinyServed.metrics.cancelledSequences.count 0 ≤ 1 := by
  have hreach : Reaches tinyScheduler Anything tinyStart tinyServed :=
    Transition.reaches_getD_run (by decide +kernel) tinyStart
  have hconserved := requests_conserved tinyScheduler 2 8 12 12 64 4 (fun _ ↦ 5) tinyServed hreach
  exact ⟨by decide +kernel, hconserved.2.1 0, hconserved.2.2.2 0⟩

end Scheduler

end HotBatch
