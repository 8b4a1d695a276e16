import HotBatch.Scheduler.QueueHistories

/-!
# Cancellation in the scheduler

A connection signals by dropping its receiver or by cancelling `response_done`. The loop looks at
both before it reaps and again at every row, but it reads one after the other, so a signal may fall
between the two reads, or come after both. What follows for a sequence depends only on where the
loop stands: whether it will look at the sequence again before the next pass, and whether it is about
to sample for it without looking.
-/

namespace HotBatch

namespace Scheduler

open SharedQueue

variable {α : Type}

/-- The receiver has been dropped, or the response is done. -/
def Signalled (client : ClientId) (s : State α) : Prop :=
  (s.clients client).responseDone = true ∨ (s.clients client).receiverOpen = false

/-! ## Where the loop stands -/

namespace Pc

/-- The loop will look at the sequence at this index before it starts a pass. Between the two reads
only a receiver that is `gone` by now is noticed. -/
def WillCheck (gone : Prop) : Pc α → ℕ → Prop
  | checkDone (.removing index), other => index ≤ other
  | checkClosed (.removing index) _, other => index < other ∨ index = other ∧ gone
  | checkDone (.delivering _ _), _ | checkClosed (.delivering _ _) _, _ => True
  | checkDone _, _ | checkClosed _ _, _ => False
  | admission, _ | admitRequest _, _ | prefill _, _ | evict _, _ | idleCheck, _ | parked, _
  | forward, _ => False
  | _, _ => True

/-- The loop will look at the sequence that is being admitted before it starts a pass. -/
def WillCheckCandidate (gone : Prop) : Pc α → Prop
  | checkDone (.allocated _) | checkDone (.prefilled _) => True
  | checkClosed (.allocated _) _ | checkClosed (.prefilled _) _ => gone
  | _ => False

/-- A token may be sampled for the sequence at this index before the loop looks at it again. -/
def MaySample (gone : Prop) : Pc α → ℕ → Prop
  | checkClosed (.delivering index _) _, other => index = other ∧ ¬ gone
  | sampleToken index _, other => index = other
  | _, _ => False

end Pc

theorem Pc.WillCheck.mono {gone gone' : Prop} (hgone : gone → gone') {pc : Pc α} {index : ℕ}
    (hwill : pc.WillCheck gone index) : pc.WillCheck gone' index := by
  cases pc with
  | checkClosed site reader =>
      cases site with
      | removing visited => exact hwill.imp id fun hnow ↦ ⟨hnow.1, hgone hnow.2⟩
      | popped _ | allocated _ | prefilled _ | delivering _ _ => exact hwill
  | checkDone site => cases site <;> exact hwill
  | _ => exact hwill

theorem Pc.WillCheckCandidate.mono {gone gone' : Prop} (hgone : gone → gone') {pc : Pc α}
    (hwill : pc.WillCheckCandidate gone) : pc.WillCheckCandidate gone' := by
  cases pc with
  | checkClosed site reader =>
      cases site with
      | allocated _ | prefilled _ => exact hgone hwill
      | removing _ | popped _ | delivering _ _ => exact hwill
  | checkDone site => cases site <;> exact hwill
  | _ => exact hwill

theorem Pc.MaySample.anti {gone gone' : Prop} (hgone : gone → gone') {pc : Pc α} {index : ℕ}
    (hmay : pc.MaySample gone' index) : pc.MaySample gone index := by
  cases pc with
  | checkClosed site reader =>
      cases site with
      | delivering visited logits => exact ⟨hmay.1, fun hnow ↦ hmay.2 (hgone hnow)⟩
      | removing _ | popped _ | allocated _ | prefilled _ => exact hmay
  | _ => exact hmay

/-- What holds of a sequence whose client has signalled: `bound` tokens at the time of the signal,
and perhaps a pass since then. -/
structure Stopping (bound : ℕ) (passed gone : Prop) (pc : Pc α) (index : ℕ) (seq : Sequence α) : Prop where
  tokens_le : seq.generatedTokens.length ≤ bound + 1
  lastToken : pc.MaySample gone index → seq.isDone = true ∨ seq.generatedTokens.length ≤ bound
  lastPass : passed → seq.isDone = true ∨ pc.WillCheck gone index

/-- The same of the sequence that is being admitted. No token is sampled for it. -/
structure StoppingCandidate (bound : ℕ) (passed gone : Prop) (pc : Pc α) (seq : Sequence α) : Prop where
  tokens_le : seq.generatedTokens.length ≤ bound
  lastPass : passed → pc.WillCheckCandidate gone

/-- A client that has signalled, after its request has become a sequence. -/
structure Observed (client : ClientId) (bound : ℕ) (passed : Prop) (s : State α) : Prop where
  signalled : Signalled client s
  accepted : client ∈ s.history.accepted.map GenerationRequest.client
  queued : ∀ req ∈ s.queue.requests, req.client ≠ client
  pending : ∀ req ∈ s.pc.pending, req.client ≠ client
  candidate : ∀ seq ∈ s.pc.candidate, seq.client = client →
    StoppingCandidate bound passed ((s.clients client).receiverOpen = false) s.pc seq
  running : ∀ index seq, s.running[index]? = some seq → seq.client = client →
    Stopping bound passed ((s.clients client).receiverOpen = false) s.pc index seq
  resolved : ∀ seq, .sequence seq ∈ s.history.resolved → seq.client = client →
    seq.generatedTokens.length ≤ bound + 1

namespace Stopping

variable {bound index index' : ℕ} {passed gone gone' : Prop} {pc pc' : Pc α} {seq : Sequence α}

/-- A sequence that is done is no longer sampled for and in no further pass. -/
theorem of_done (htokens : seq.generatedTokens.length ≤ bound + 1) (hdone : seq.isDone = true) :
    Stopping bound passed gone pc index seq :=
  ⟨htokens, fun _ ↦ Or.inl hdone, fun _ ↦ Or.inl hdone⟩

theorem cancel (hstopping : Stopping bound passed gone pc index seq) :
    Stopping bound passed gone' pc' index' seq.cancel := by
  apply of_done _ seq.cancel_isDone
  rw [Sequence.cancel_generatedTokens]
  exact hstopping.tokens_le

theorem fail (hstopping : Stopping bound passed gone pc index seq) :
    Stopping bound passed gone' pc' index' seq.fail := by
  apply of_done _ seq.fail_isDone
  rw [Sequence.fail_generatedTokens]
  exact hstopping.tokens_le

/-- A move of the loop. -/
theorem move (hstopping : Stopping bound passed gone pc index seq)
    (hsample : pc'.MaySample gone' index' → seq.isDone = true ∨ pc.MaySample gone index)
    (hcheck : pc.WillCheck gone index → seq.isDone = true ∨ pc'.WillCheck gone' index') :
    Stopping bound passed gone' pc' index' seq where
  tokens_le := hstopping.tokens_le
  lastToken hmay := (hsample hmay).elim Or.inl hstopping.lastToken
  lastPass hpassed := (hstopping.lastPass hpassed).elim Or.inl hcheck

end Stopping

/-! ## One step -/

section Step

variable {client : ClientId} {bound : ℕ} {passed : Prop} {s s' : State α}

/-- What the entry of a client whose receiver is `gone` means, for the signals as they are. -/
abbrev State.Gone (s : State α) (client : ClientId) : Prop := (s.clients client).receiverOpen = false

/-- A step that takes nothing into the queue. -/
theorem Observed.update (hobserved : Observed client bound passed s) (hsame : SameSignals s s')
    (haccepted : s'.history.accepted = s.history.accepted)
    (hqueue : s'.queue.requests ⊆ s.queue.requests)
    (hpending : ∀ req ∈ s'.pc.pending, req ∈ s.pc.pending ∨ req ∈ s.queue.requests)
    (hcandidate : ∀ seq ∈ s'.pc.candidate, seq.client = client →
      StoppingCandidate bound passed (s.Gone client) s'.pc seq)
    (hrunning : ∀ index seq, s'.running[index]? = some seq → seq.client = client →
      Stopping bound passed (s.Gone client) s'.pc index seq)
    {more : List (Resolved α)} (hresolved : s'.history.resolved = s.history.resolved ++ more)
    (hmore : ∀ seq, .sequence seq ∈ more → seq.client = client →
      seq.generatedTokens.length ≤ bound + 1) : Observed client bound passed s' where
  signalled := by
    unfold Signalled
    rw [(hsame client).1, (hsame client).2]
    exact hobserved.signalled
  accepted := haccepted ▸ hobserved.accepted
  queued req hreq := hobserved.queued req (hqueue hreq)
  pending req hreq := (hpending req hreq).elim (hobserved.pending req) (hobserved.queued req)
  candidate seq hseq hclient := by
    rw [(hsame client).1]
    exact hcandidate seq hseq hclient
  running index seq hseq hclient := by
    rw [(hsame client).1]
    exact hrunning index seq hseq hclient
  resolved seq hseq hclient := by
    rw [hresolved] at hseq
    rcases List.mem_append.mp hseq with hmem | hmem
    · exact hobserved.resolved seq hmem hclient
    · exact hmore seq hmem hclient

/-- Nothing is submitted, and nothing is being admitted any more. -/
structure Free (s s' : State α) : Prop where
  accepted_eq : s'.history.accepted = s.history.accepted
  queue_eq : s'.queue = s.queue
  pending_eq : s'.pc.pending = []
  candidate_eq : s'.pc.candidate = none

theorem Observed.updateFree (hobserved : Observed client bound passed s) (hsame : SameSignals s s')
    (hfree : Free s s')
    (hrunning : ∀ index seq, s'.running[index]? = some seq → seq.client = client →
      Stopping bound passed (s.Gone client) s'.pc index seq)
    {more : List (Resolved α)} (hresolved : s'.history.resolved = s.history.resolved ++ more)
    (hmore : ∀ seq, .sequence seq ∈ more → seq.client = client →
      seq.generatedTokens.length ≤ bound + 1) : Observed client bound passed s' := by
  refine hobserved.update hsame hfree.accepted_eq (hfree.queue_eq ▸ List.Subset.refl _) ?_ ?_
    hrunning hresolved hmore
  · rw [hfree.pending_eq]
    exact fun _ hreq ↦ nomatch hreq
  · rw [hfree.candidate_eq]
    exact fun _ hseq ↦ nomatch hseq

/-- The done sequences leave `running`; the others are either looked at again or were not to be. -/
theorem Observed.reap (hobserved : Observed client bound passed s) (hsame : SameSignals s s')
    (hfree : Free s s') (hrunning : s'.running = s.running.filter fun seq ↦ !seq.isDone)
    (hresolved : s'.history.resolved =
      s.history.resolved ++ (s.running.filter Sequence.isDone).map .sequence)
    (hsample : ∀ index, ¬ s'.pc.MaySample (s.Gone client) index)
    (hcheck : (∀ index, s'.pc.WillCheck (s.Gone client) index) ∨
      ∀ index < s.running.length, ¬ s.pc.WillCheck (s.Gone client) index) :
    Observed client bound passed s' := by
  refine hobserved.updateFree hsame hfree ?_ hresolved ?_
  · intro index seq hseq hclient
    rw [hrunning] at hseq
    obtain ⟨hmem, hnotDone⟩ := List.mem_filter.mp (List.mem_of_getElem? hseq)
    obtain ⟨old, hold⟩ := List.mem_iff_getElem?.mp hmem
    have hstopping := hobserved.running old seq hold hclient
    refine ⟨hstopping.tokens_le, fun hmay ↦ absurd hmay (hsample index), fun hpassed ↦ ?_⟩
    rcases hcheck with hall | hnone
    · exact Or.inr (hall index)
    · rcases hstopping.lastPass hpassed with hdone | hwill
      · rw [hdone] at hnotDone
        cases hnotDone
      · exact absurd hwill (hnone old (List.getElem?_eq_some_iff.mp hold).1)
  · intro seq hseq hclient
    obtain ⟨done, hdone, heq⟩ := List.mem_map.mp hseq
    obtain rfl := Resolved.sequence.inj heq
    obtain ⟨old, hold⟩ := List.mem_iff_getElem?.mp (List.mem_of_mem_filter hdone)
    exact (hobserved.running old done hold hclient).tokens_le

/-- The sequence at one index is given up, and the loop goes on. -/
theorem Observed.giveUp (hobserved : Observed client bound passed s) (hsame : SameSignals s s')
    (hfree : Free s s') (hresolved : s'.history.resolved = s.history.resolved) {index : ℕ}
    {f : Sequence α → Sequence α} (hf : f = Sequence.cancel ∨ f = Sequence.fail)
    (hrunning : s'.running = s.running.modify index f)
    (hsample : ∀ other, ¬ s'.pc.MaySample (s.Gone client) other)
    (hcheck : ∀ other, other ≠ index → s.pc.WillCheck (s.Gone client) other →
      s'.pc.WillCheck (s.Gone client) other) : Observed client bound passed s' := by
  have hclientOf : ∀ seq : Sequence α, (f seq).client = seq.client := by
    intro seq
    rcases hf with rfl | rfl
    · exact seq.cancel_client
    · exact seq.fail_client
  refine hobserved.updateFree hsame hfree ?_ (hresolved.trans (List.append_nil _).symm)
    fun _ hseq ↦ nomatch hseq
  intro other seq hseq hclient
  rw [hrunning, List.getElem?_modify] at hseq
  obtain ⟨before, hbefore, hafter⟩ := Option.map_eq_some_iff.mp hseq
  by_cases hother : index = other
  · rw [if_pos hother] at hafter
    subst hafter
    rw [hclientOf] at hclient
    have hstopping := hobserved.running other before hbefore hclient
    rcases hf with rfl | rfl
    · exact hstopping.cancel
    · exact hstopping.fail
  · rw [if_neg hother] at hafter
    subst hafter
    exact (hobserved.running other before hbefore hclient).move
      (fun hmay ↦ absurd hmay (hsample other))
      fun hwill ↦ Or.inr (hcheck other (Ne.symm hother) hwill)

/-- Going to `pc'` allows no sequence of the client more than before, and skips no look at it. -/
def Moves (client : ClientId) (s : State α) (pc' : Pc α) : Prop :=
  ∀ index seq, s.running[index]? = some seq → seq.client = client →
    (pc'.MaySample (s.Gone client) index → s.pc.MaySample (s.Gone client) index) ∧
      (s.pc.WillCheck (s.Gone client) index → pc'.WillCheck (s.Gone client) index)

/-- Here no row is checked, and there none is sampled. -/
theorem moves_of_unconcerned {pc' : Pc α} (hcheck : ∀ index, ¬ s.pc.WillCheck (s.Gone client) index)
    (hsample : ∀ index, ¬ pc'.MaySample (s.Gone client) index) : Moves client s pc' :=
  fun index _ _ _ ↦
    ⟨fun hmay ↦ absurd hmay (hsample index), fun hwill ↦ absurd hwill (hcheck index)⟩

theorem Observed.running_of_moves (hobserved : Observed client bound passed s)
    (hrunning : s'.running = s.running) (hmoves : Moves client s s'.pc) (index : ℕ)
    (seq : Sequence α) (hseq : s'.running[index]? = some seq) (hclient : seq.client = client) :
    Stopping bound passed (s.Gone client) s'.pc index seq := by
  rw [hrunning] at hseq
  obtain ⟨hsample, hcheck⟩ := hmoves index seq hseq hclient
  exact (hobserved.running index seq hseq hclient).move (fun hmay ↦ Or.inr (hsample hmay))
    fun hwill ↦ Or.inr (hcheck hwill)

/-- The loop moves and leaves `running` as it is. -/
theorem Observed.keep (hobserved : Observed client bound passed s) (hsame : SameSignals s s')
    (haccepted : s'.history.accepted = s.history.accepted)
    (hqueue : s'.queue.requests ⊆ s.queue.requests)
    (hpending : ∀ req ∈ s'.pc.pending, req ∈ s.pc.pending ∨ req ∈ s.queue.requests)
    (hcandidate : ∀ seq ∈ s'.pc.candidate, seq.client = client →
      StoppingCandidate bound passed (s.Gone client) s'.pc seq)
    (hrunning : s'.running = s.running)
    (hresolved : s'.history.resolved = s.history.resolved) (hmoves : Moves client s s'.pc) :
    Observed client bound passed s' :=
  hobserved.update hsame haccepted hqueue hpending hcandidate
    (hobserved.running_of_moves hrunning hmoves) (hresolved.trans (List.append_nil _).symm)
    fun _ hseq ↦ nomatch hseq

/-- What was being admitted is resolved. -/
theorem Observed.settle (hobserved : Observed client bound passed s) (hsame : SameSignals s s')
    (hfree : Free s s') (hrunning : s'.running = s.running) {more : List (Resolved α)}
    (hresolved : s'.history.resolved = s.history.resolved ++ more)
    (hmore : ∀ seq, .sequence seq ∈ more → seq.client = client →
      seq.generatedTokens.length ≤ bound + 1) (hmoves : Moves client s s'.pc) :
    Observed client bound passed s' :=
  hobserved.updateFree hsame hfree (hobserved.running_of_moves hrunning hmoves) hresolved hmore

/-- The loop moves, and nothing else happens. -/
theorem Observed.drift (hobserved : Observed client bound passed s) (hsame : SameSignals s s')
    (hfree : Free s s') (hrunning : s'.running = s.running)
    (hresolved : s'.history.resolved = s.history.resolved) (hmoves : Moves client s s'.pc) :
    Observed client bound passed s' :=
  hobserved.settle hsame hfree hrunning (hresolved.trans (List.append_nil _).symm)
    (fun _ hseq ↦ nomatch hseq) hmoves

/-- Requests that are thrown out have generated nothing. -/
theorem sequence_notMem_requests (requests : List (GenerationRequest α)) (seq : Sequence α) :
    Resolved.sequence seq ∉ requests.map Resolved.request := by
  intro hseq
  obtain ⟨req, -, heq⟩ := List.mem_map.mp hseq
  cases heq

theorem Observed.prune (hobserved : Observed client bound passed s) (late : List ClientId) :
    Observed client bound passed
      (s.prune (s.queue.pruned (s.isOpen late)) (s.queue.retainOpen (s.isOpen late))) :=
  hobserved.update (sameSignals_of_eq rfl) rfl (s.queue.retainOpen_subset _)
    (fun _ hreq ↦ Or.inl hreq) hobserved.candidate
    (hobserved.running_of_moves rfl fun _ _ _ _ ↦ ⟨id, id⟩) rfl
    fun seq hseq ↦ absurd hseq (sequence_notMem_requests _ seq)

theorem Observed.recordCancelled (hobserved : Observed client bound passed s)
    (clients : List ClientId) : Observed client bound passed (s.recordCancelled clients) :=
  ⟨hobserved.signalled, hobserved.accepted, hobserved.queued, hobserved.pending,
    hobserved.candidate, hobserved.running, hobserved.resolved⟩

/-- Where the client's sequence is looked at before the next pass, a pass may have been started. -/
theorem Observed.afterPass (hobserved : Observed client bound passed s) (passed' : Prop)
    (hcheck : ∀ index seq, s.running[index]? = some seq → seq.client = client →
      s.pc.WillCheck (s.Gone client) index)
    (hcandidate : ∀ seq ∈ s.pc.candidate, seq.client = client →
      s.pc.WillCheckCandidate (s.Gone client)) :
    Observed client bound passed' s where
  signalled := hobserved.signalled
  accepted := hobserved.accepted
  queued := hobserved.queued
  pending := hobserved.pending
  candidate seq hseq hclient :=
    ⟨(hobserved.candidate seq hseq hclient).tokens_le, fun _ ↦ hcandidate seq hseq hclient⟩
  running index seq hseq hclient :=
    ⟨(hobserved.running index seq hseq hclient).tokens_le,
      (hobserved.running index seq hseq hclient).lastToken,
      fun _ ↦ Or.inr (hcheck index seq hseq hclient)⟩
  resolved := hobserved.resolved

theorem observed_abandon {site : Site α} (reader : ClientId)
    (hobserved : Observed client bound passed s)
    (hpc : s.pc = .checkDone site ∨ s.pc = .checkClosed site reader) :
    Observed client bound passed (abandon site s) := by
  have hcandidate : s.pc.candidate = site.candidate := by rcases hpc with h | h <;> rw [h] <;> rfl
  cases site with
  | removing index =>
      refine hobserved.giveUp (sameSignals_of_eq rfl) (by constructor <;> rfl) rfl (Or.inl rfl) rfl
        (fun _ ↦ id) ?_
      intro other hother hwill
      rcases hpc with h | h
      · rw [h] at hwill
        exact Nat.lt_of_le_of_ne hwill (Ne.symm hother)
      · rw [h] at hwill
        exact hwill.resolve_right fun heq ↦ hother heq.1.symm
  | delivering index logits =>
      exact hobserved.giveUp (sameSignals_of_eq rfl) (by constructor <;> rfl) rfl (Or.inl rfl) rfl
        (fun _ ↦ id) fun _ _ _ ↦ trivial
  | popped req =>
      refine hobserved.settle (sameSignals_of_eq rfl) (by constructor <;> rfl) rfl rfl ?_ ?_
      · exact fun seq hseq ↦ absurd hseq (sequence_notMem_requests [req] seq)
      · intro index seq _ _
        refine ⟨False.elim, fun hwill ↦ ?_⟩
        rcases hpc with h | h <;> rw [h] at hwill <;> exact hwill
  | allocated held | prefilled held =>
      refine hobserved.settle (sameSignals_of_eq rfl) (by constructor <;> rfl) rfl rfl ?_ ?_
      · intro seq hseq hclient
        obtain rfl := Resolved.sequence.inj (List.mem_singleton.mp hseq)
        rw [Sequence.cancel_client] at hclient
        rw [Sequence.cancel_generatedTokens]
        have hwaiting := hobserved.candidate held (hcandidate ▸ Option.mem_some_self held) hclient
        exact Nat.le_succ_of_le hwaiting.tokens_le
      · intro index seq _ _
        refine ⟨False.elim, fun hwill ↦ ?_⟩
        rcases hpc with h | h <;> rw [h] at hwill <;> exact hwill

/-- The sequence the loop is at belongs to the client whose signals it reads. -/
theorem eq_of_site_client {site : Site α} {reader : ClientId} {running : List (Sequence α)}
    (hsite : site.client running = some reader) {index : ℕ} {seq : Sequence α}
    (hseq : running[index]? = some seq)
    (hindex : site = .removing index ∨ ∃ logits, site = .delivering index logits) :
    seq.client = reader := by
  rcases hindex with rfl | ⟨logits, rfl⟩
  · have hclient : (running[index]?).map Sequence.client = some reader := hsite
    rw [hseq] at hclient
    exact Option.some.inj hclient
  · have hclient : (running[index]?).map Sequence.client = some reader := hsite
    rw [hseq] at hclient
    exact Option.some.inj hclient

/-- Between the two reads: whoever has signalled is noticed now, or has dropped the receiver. -/
theorem observed_responseWanted {site : Site α} {reader : ClientId}
    (hobserved : Observed client bound passed s) (hpc : s.pc = .checkDone site)
    (hsite : site.client s.running = some reader)
    (hdone : (s.clients reader).responseDone = false) :
    Observed client bound passed (s.goto (.checkClosed site reader)) := by
  have hgone : reader = client → s.Gone client := by
    rintro rfl
    apply hobserved.signalled.resolve_left
    rw [hdone]
    exact Bool.false_ne_true
  refine hobserved.keep (sameSignals_of_eq rfl) rfl (List.Subset.refl _) ?_ ?_ rfl rfl ?_
  · intro req hreq
    rw [hpc]
    exact Or.inl hreq
  · intro seq hseq hclient
    have hwaiting := hobserved.candidate seq (by rw [hpc]; exact hseq) hclient
    refine ⟨hwaiting.tokens_le, fun _ ↦ ?_⟩
    cases site with
    | allocated held | prefilled held =>
        obtain rfl := Option.mem_some_iff.mp hseq
        exact hgone ((Option.some.inj hsite).symm.trans hclient)
    | removing _ | popped _ | delivering _ _ => cases hseq
  · intro index seq hseq hclient
    rw [hpc]
    cases site with
    | removing visited =>
        refine ⟨id, fun hwill ↦ ?_⟩
        rcases Nat.lt_or_eq_of_le hwill with hlt | rfl
        · exact Or.inl hlt
        · have hreader := eq_of_site_client hsite hseq (Or.inl rfl)
          exact Or.inr ⟨rfl, hgone (hreader.symm.trans hclient)⟩
    | delivering visited logits =>
        refine ⟨?_, id⟩
        rintro ⟨rfl, hopen⟩
        have hreader := eq_of_site_client hsite hseq (Or.inr ⟨logits, rfl⟩)
        exact hopen (hgone (hreader.symm.trans hclient))
    | popped _ | allocated _ | prefilled _ => exact ⟨id, id⟩

theorem observed_proceed {site : Site α} {reader : ClientId}
    (hobserved : Observed client bound passed s) (hpc : s.pc = .checkClosed site reader)
    (hsite : site.client s.running = some reader)
    (hopen : (s.clients reader).isClosed = false) : Observed client bound passed (proceed site s) := by
  have hpresent : reader = client → ¬ s.Gone client := by
    rintro rfl hgone
    rw [Client.isClosed, hgone] at hopen
    cases hopen
  cases site with
  | removing visited =>
      refine hobserved.drift (sameSignals_of_eq rfl) (by constructor <;> rfl) rfl rfl ?_
      intro index seq hseq hclient
      rw [hpc]
      refine ⟨False.elim, fun hwill ↦ ?_⟩
      rcases hwill with hlt | ⟨rfl, hgone⟩
      · exact hlt
      · have hreader := eq_of_site_client hsite hseq (Or.inl rfl)
        exact absurd hgone (hpresent (hreader.symm.trans hclient))
  | delivering visited logits =>
      refine hobserved.drift (sameSignals_of_eq rfl) (by constructor <;> rfl) rfl rfl ?_
      intro index seq hseq hclient
      rw [hpc]
      refine ⟨?_, fun _ ↦ trivial⟩
      intro hindex
      obtain rfl : visited = index := hindex
      have hreader := eq_of_site_client hsite hseq (Or.inr ⟨logits, rfl⟩)
      exact ⟨rfl, hpresent (hreader.symm.trans hclient)⟩
  | popped req =>
      refine hobserved.keep (sameSignals_of_eq rfl) rfl (List.Subset.refl _) ?_
        (fun _ hseq ↦ absurd hseq (Option.not_mem_none _)) rfl rfl ?_
      · intro other hother
        rw [hpc]
        exact Or.inl hother
      · intro index seq _ _
        rw [hpc]
        exact ⟨False.elim, False.elim⟩
  | allocated held =>
      refine hobserved.keep (sameSignals_of_eq rfl) rfl (List.Subset.refl _)
        (fun _ hreq ↦ absurd hreq List.not_mem_nil) ?_ rfl rfl ?_
      · intro seq hseq hclient
        have hwaiting := hobserved.candidate seq (by rw [hpc]; exact hseq) hclient
        refine ⟨hwaiting.tokens_le, fun hpassed ↦ ?_⟩
        have hgone : s.Gone client := by
          have hwill := hwaiting.lastPass hpassed
          rwa [hpc] at hwill
        obtain rfl := Option.mem_some_iff.mp hseq
        exact absurd hgone (hpresent ((Option.some.inj hsite).symm.trans hclient))
      · intro index seq _ _
        rw [hpc]
        exact ⟨False.elim, False.elim⟩
  | prefilled held =>
      refine hobserved.updateFree (sameSignals_of_eq rfl) (by constructor <;> rfl) ?_
        (List.append_nil _).symm fun _ hseq ↦ absurd hseq List.not_mem_nil
      intro index seq hseq hclient
      change (s.running ++ [held])[index]? = some seq at hseq
      by_cases hlt : index < s.running.length
      · rw [List.getElem?_append_left hlt] at hseq
        refine (hobserved.running index seq hseq hclient).move False.elim fun hwill ↦ ?_
        rw [hpc] at hwill
        exact hwill.elim
      · rw [List.getElem?_append_right (Nat.not_lt.mp hlt)] at hseq
        obtain rfl := List.mem_singleton.mp (List.mem_of_getElem? hseq)
        have hwaiting := hobserved.candidate seq (by rw [hpc]; exact Option.mem_some_self seq) hclient
        refine ⟨Nat.le_succ_of_le hwaiting.tokens_le, False.elim, fun hpassed ↦ ?_⟩
        have hgone : s.Gone client := by
          have hwill := hwaiting.lastPass hpassed
          rwa [hpc] at hwill
        exact absurd hgone (hpresent ((Option.some.inj hsite).symm.trans hclient))

theorem observed_endLoop {site : Site α} (hobserved : Observed client bound passed s)
    (hpc : s.pc = .checkDone site) (hend : site.client s.running = none) :
    Observed client bound passed (endLoop site s) := by
  cases site with
  | popped _ | allocated _ | prefilled _ => cases hend
  | removing visited =>
      refine hobserved.reap (sameSignals_of_eq rfl) (by constructor <;> rfl) rfl rfl (fun _ ↦ id)
        (Or.inr fun index hindex hwill ↦ ?_)
      have hlength := List.getElem?_eq_none_iff.mp (Option.map_eq_none_iff.mp hend)
      rw [hpc] at hwill
      exact absurd hindex (hlength.trans hwill).not_gt
  | delivering visited logits =>
      exact hobserved.reap (sameSignals_of_eq rfl) (by constructor <;> rfl) rfl rfl (fun _ ↦ id)
        (Or.inl fun _ ↦ trivial)

theorem observed_endStep (hobserved : Observed client bound passed s) :
    Observed client bound passed (endStep s) :=
  hobserved.reap (sameSignals_of_eq rfl) (by constructor <;> rfl) rfl rfl (fun _ ↦ id)
    (Or.inl fun _ ↦ trivial)

theorem observed_tryPop {late : List ClientId} (hobserved : Observed client bound passed s)
    (hpc : s.pc = .admission) : Observed client bound passed (tryPop late s) := by
  have hcheck : ∀ index, ¬ s.pc.WillCheck (s.Gone client) index := by
    rw [hpc]
    exact fun _ ↦ id
  unfold tryPop
  rcases RequestQueue.tryPop_cases (s.isOpen late) s.queue with
    ⟨hpop, -⟩ | ⟨req, rest, hpop, hperm⟩
  · rw [hpop]
    exact (hobserved.prune late).drift (sameSignals_of_eq rfl) (by constructor <;> rfl) rfl rfl
      (moves_of_unconcerned hcheck fun _ ↦ id)
  · rw [hpop]
    refine (hobserved.prune late).keep (sameSignals_of_eq rfl) rfl
      (fun other hother ↦ hperm.subset (List.mem_cons_of_mem _ hother)) ?_
      (fun _ hseq ↦ nomatch hseq) rfl rfl ?_
    · intro other hother
      obtain rfl := List.mem_singleton.mp hother
      exact Or.inr (hperm.subset List.mem_cons_self)
    · exact moves_of_unconcerned hcheck fun _ ↦ id

/-- A request that is being admitted is answered, or becomes a candidate. -/
theorem observed_admitRequest (scheduler : Scheduler α) {req : GenerationRequest α}
    (hobserved : Observed client bound passed s) (hpc : s.pc = .admitRequest req) :
    Observed client bound passed (admitRequest scheduler req s) := by
  have hcheck : ∀ index, ¬ s.pc.WillCheck (s.Gone client) index := by
    rw [hpc]
    exact fun _ ↦ id
  have hanswered : ∀ seq : Sequence α, .sequence seq ∈ [Resolved.request req] →
      seq.client = client → seq.generatedTokens.length ≤ bound + 1 :=
    fun seq hseq ↦ absurd hseq (sequence_notMem_requests [req] seq)
  unfold admitRequest
  split
  · exact hobserved.settle (sameSignals_answer _ _ rfl) (by constructor <;> rfl) rfl rfl
      hanswered (moves_of_unconcerned hcheck fun _ ↦ id)
  · split
    · exact hobserved.settle (sameSignals_answer _ _ rfl) (by constructor <;> rfl) rfl rfl
        hanswered (moves_of_unconcerned hcheck fun _ ↦ id)
    · rename_i seq kvCache hnew
      refine hobserved.keep (sameSignals_of_eq rfl) rfl (List.Subset.refl _)
        (fun _ hreq ↦ nomatch hreq) ?_ rfl rfl (moves_of_unconcerned hcheck fun _ ↦ id)
      intro other hother hclient
      obtain rfl := Option.mem_some_iff.mp hother
      obtain ⟨handle, rfl⟩ := Sequence.exists_ofRequest_of_new hnew
      have hpending : req ∈ s.pc.pending := by
        rw [hpc]
        exact List.mem_singleton_self req
      exact absurd hclient (hobserved.pending req hpending)

theorem observed_evictAt (scheduler : Scheduler α) {index : ℕ}
    (hobserved : Observed client bound passed s) (hpc : s.pc = .evict index) :
    Observed client bound passed (evictAt scheduler index s) := by
  have hnotChecked : ∀ other, ¬ s.pc.WillCheck (s.Gone client) other := by
    rw [hpc]
    exact fun _ ↦ id
  unfold evictAt
  split
  · dsimp only
    split
    · exact hobserved.reap (sameSignals_of_eq rfl) (by constructor <;> rfl) rfl rfl (fun _ ↦ id)
        (Or.inr fun other _ ↦ hnotChecked other)
    · exact hobserved.reap (sameSignals_of_eq rfl) (by constructor <;> rfl) rfl rfl (fun _ ↦ id)
        (Or.inr fun other _ ↦ hnotChecked other)
  · dsimp only
    split
    · exact hobserved.giveUp (sameSignals_answer _ _ rfl) (by constructor <;> rfl) rfl (Or.inr rfl) rfl
        (fun _ ↦ id) fun other _ hwill ↦ absurd hwill (hnotChecked other)
    · exact hobserved.drift (sameSignals_of_eq rfl) (by constructor <;> rfl) rfl rfl fun other _ _ _ ↦
        ⟨False.elim, fun hwill ↦ absurd hwill (hnotChecked other)⟩

theorem observed_failBatchAt {index : ℕ} {message : String}
    (hobserved : Observed client bound passed s) :
    Observed client bound passed (failBatchAt index message s) := by
  unfold failBatchAt
  split
  · exact observed_endStep hobserved
  · exact hobserved.giveUp (sameSignals_answer _ _ rfl) (by constructor <;> rfl) rfl (Or.inr rfl) rfl
      (fun _ ↦ id) fun _ _ _ ↦ trivial

theorem observed_sendItems {index : ℕ} {logits : List (LogitRow α)} {items : List StreamItem}
    (hobserved : Observed client bound passed s) :
    Observed client bound passed (sendItems index logits items s) := by
  unfold sendItems
  split
  · rename_i seq item rest _
    exact hobserved.drift (sameSignals_send seq.client item rfl) (by constructor <;> rfl) rfl rfl
      fun _ _ _ _ ↦ ⟨False.elim, fun _ ↦ trivial⟩
  · exact hobserved.drift (sameSignals_of_eq rfl) (by constructor <;> rfl) rfl rfl
      fun _ _ _ _ ↦ ⟨False.elim, fun _ ↦ trivial⟩

theorem observed_closeQueue (hobserved : Observed client bound passed s) :
    Observed client bound passed (closeQueue s) :=
  hobserved.keep (sameSignals_of_eq rfl) rfl (List.nil_subset _) (fun _ hreq ↦ Or.inr hreq)
    (fun _ hseq ↦ nomatch hseq) rfl rfl fun _ _ _ _ ↦ ⟨False.elim, fun _ ↦ trivial⟩

theorem observed_answerQueued {drained : List (GenerationRequest α)}
    (hobserved : Observed client bound passed s) (hpc : s.pc = .answerQueued drained) :
    Observed client bound passed (answerQueued drained s) := by
  cases drained with
  | nil =>
      exact hobserved.drift (sameSignals_of_eq rfl) (by constructor <;> rfl) rfl rfl
        fun _ _ _ _ ↦ ⟨False.elim, fun _ ↦ trivial⟩
  | cons req rest =>
      have hmoves : Moves client s (answerQueued (req :: rest) s).pc :=
        fun _ _ _ _ ↦ ⟨False.elim, fun _ ↦ trivial⟩
      refine hobserved.update (sameSignals_answer _ _ rfl) rfl (List.Subset.refl _) ?_
        (fun _ hseq ↦ nomatch hseq) (hobserved.running_of_moves rfl hmoves) rfl
        fun seq hseq ↦ absurd hseq (sequence_notMem_requests [req] seq)
      intro other hother
      rw [hpc]
      exact Or.inl (List.mem_cons_of_mem _ hother)

/-- On the way out the sequences leave from the front. -/
theorem observed_answerRunning (hobserved : Observed client bound passed s) :
    Observed client bound passed (answerRunning s) := by
  unfold answerRunning
  split
  · exact hobserved.drift (sameSignals_of_eq rfl) (by constructor <;> rfl) rfl rfl
      fun _ _ _ _ ↦ ⟨False.elim, fun _ ↦ trivial⟩
  · rename_i first rest hrunning
    have hat : ∀ index : ℕ, s.running[index]? = (first :: rest)[index]? := fun index ↦ by rw [hrunning]
    refine hobserved.updateFree (sameSignals_answer _ _ rfl) (by constructor <;> rfl) ?_ rfl ?_
    · intro index seq hseq hclient
      have hold : s.running[index + 1]? = some seq := (hat (index + 1)).trans hseq
      exact ⟨(hobserved.running _ seq hold hclient).tokens_le, False.elim, fun _ ↦ Or.inr trivial⟩
    · intro seq hseq hclient
      obtain rfl := Resolved.sequence.inj (List.mem_singleton.mp hseq)
      exact (hobserved.running 0 seq (hat 0) hclient).tokens_le

variable [Kernels α] {scheduler : Scheduler α}

theorem observed_prefill {seq : Sequence α} (hobserved : Observed client bound passed s)
    (hpc : s.pc = .prefill seq) : Observed client bound passed (prefill scheduler seq s) := by
  have hwaiting : seq.client = client → seq.generatedTokens.length ≤ bound := by
    intro hclient
    have hseq : seq ∈ s.pc.candidate := by rw [hpc]; exact Option.mem_some_self seq
    exact (hobserved.candidate seq hseq hclient).tokens_le
  have hcheck : ∀ index, ¬ s.pc.WillCheck (s.Gone client) index := by
    rw [hpc]
    exact fun _ ↦ id
  unfold prefill
  split
  · refine hobserved.settle (sameSignals_answer _ _ rfl) (by constructor <;> rfl) rfl rfl ?_
      (moves_of_unconcerned hcheck fun _ ↦ id)
    intro failed hfailed hclient
    obtain rfl := Resolved.sequence.inj (List.mem_singleton.mp hfailed)
    rw [Sequence.fail_client] at hclient
    rw [Sequence.fail_generatedTokens]
    exact Nat.le_succ_of_le (hwaiting hclient)
  · refine hobserved.keep (sameSignals_of_eq rfl) rfl (List.Subset.refl _)
      (fun _ hreq ↦ nomatch hreq) ?_ rfl rfl (moves_of_unconcerned hcheck fun _ ↦ id)
    intro primed hprimed hclient
    obtain rfl := Option.mem_some_iff.mp hprimed
    rw [Sequence.markRunning_client] at hclient
    refine ⟨?_, fun _ ↦ trivial⟩
    rw [Sequence.markRunning_eq]
    exact hwaiting hclient

/-- After a decode pass every sequence of the batch is looked at before the next pass. -/
theorem observed_forward (hobserved : Observed client bound passed s) (passed' : Prop) :
    Observed client bound passed' (forward scheduler s) := by
  have hkept : Observed client bound passed (forward scheduler s) := by
    unfold forward
    split
    · exact hobserved.drift (sameSignals_of_eq rfl) (by constructor <;> rfl) rfl rfl
        fun _ _ _ _ ↦ ⟨False.elim, fun _ ↦ trivial⟩
    · exact hobserved.drift (sameSignals_of_eq rfl) (by constructor <;> rfl) rfl rfl
        fun _ _ _ _ ↦ ⟨False.elim, fun _ ↦ trivial⟩
  apply hkept.afterPass passed'
  · intro index seq _ _
    unfold forward
    split <;> trivial
  · intro seq hseq
    have hnone : (forward scheduler s).pc.candidate = none := by
      unfold forward
      split <;> rfl
    rw [hnone] at hseq
    cases hseq

/-- The one step that appends a token. -/
theorem observed_sampleToken {index : ℕ} {logits : List (LogitRow α)}
    (hobserved : Observed client bound passed s) (hpc : s.pc = .sampleToken index logits)
    (hnotDone : ∀ seq, s.running[index]? = some seq → seq.isDone = false) :
    Observed client bound passed (sampleToken index logits s) := by
  unfold sampleToken
  split
  · exact observed_endStep hobserved
  · rename_i seq hseq
    split
    · exact hobserved.giveUp (sameSignals_answer _ _ rfl) (by constructor <;> rfl) rfl (Or.inr rfl) rfl
        (fun _ ↦ id) fun _ _ _ ↦ trivial
    · split
      · exact hobserved.drift (sameSignals_of_eq rfl) (by constructor <;> rfl) rfl rfl
          fun _ _ _ _ ↦ ⟨False.elim, fun _ ↦ trivial⟩
      · rename_i tokens stepped hadvance
        obtain ⟨-, -, -, hclient, -, -, hgenerated⟩ := Sequence.advance_frame hadvance
        have htokens : stepped.client = client →
            stepped.generatedTokens.length ≤ bound + 1 := by
          intro hmine
          have hstopping := hobserved.running index seq hseq (hclient.symm.trans hmine)
          have hmay : s.pc.MaySample (s.Gone client) index := by rw [hpc]; rfl
          have hle : seq.generatedTokens.length ≤ bound := by
            apply (hstopping.lastToken hmay).resolve_left
            rw [hnotDone seq hseq]
            exact Bool.false_ne_true
          rw [hgenerated, List.length_append]
          exact Nat.add_le_add_right hle 1
        have hset : ∀ {after : Sequence α} {pc' : Pc α}, after.client = stepped.client →
            after.generatedTokens = stepped.generatedTokens →
            (∀ index, ¬ pc'.MaySample (s.Gone client) index) →
            (∀ index, pc'.WillCheck (s.Gone client) index) →
            ∀ other entry, (s.running.set index after)[other]? = some entry →
              entry.client = client → Stopping bound passed (s.Gone client) pc' other entry := by
          intro after pc' hafter hsame hsample hcheck other entry hentry hmine
          refine ⟨?_, fun hmay ↦ absurd hmay (hsample other), fun _ ↦ Or.inr (hcheck other)⟩
          rcases List.mem_or_eq_of_mem_set (List.mem_of_getElem? hentry) with hold | rfl
          · obtain ⟨place, hplace⟩ := List.mem_iff_getElem?.mp hold
            exact (hobserved.running place entry hplace hmine).tokens_le
          · rw [hsame]
            exact htokens (hafter.symm.trans hmine)
        dsimp only
        split
        · exact hobserved.updateFree (sameSignals_of_eq rfl) (by constructor <;> rfl)
            (hset rfl rfl (fun _ ↦ id) fun _ ↦ trivial) (List.append_nil _).symm
            fun _ hseq ↦ nomatch hseq
        · exact hobserved.updateFree (sameSignals_of_eq rfl) (by constructor <;> rfl)
            (hset stepped.cancel_client stepped.cancel_generatedTokens (fun _ ↦ id) fun _ ↦ trivial)
            (List.append_nil _).symm fun _ hseq ↦ nomatch hseq

theorem observed_next {late : List ClientId} {origin : SlabKvCache (KvTensor α)}
    (hobserved : Observed client bound passed s)
    (hslots : Slots scheduler origin s.pc s.running s.kvCache)
    (hplaced : Placed s.pc s.running s.queue) (hnext : next scheduler late s = some s') :
    Observed client bound passed s' := by
  cases schedStep_of_next hnext with
  | stop _ _ =>
      exact hobserved.drift (sameSignals_of_eq rfl) (by constructor <;> rfl) rfl rfl
        fun _ _ _ _ ↦ ⟨False.elim, fun _ ↦ trivial⟩
  | enter _ =>
      exact hobserved.drift (sameSignals_of_eq rfl) (by constructor <;> rfl) rfl rfl
        fun index _ _ _ ↦ ⟨False.elim, fun _ ↦ Nat.zero_le index⟩
  | endLoop hpc hend => exact observed_endLoop hobserved hpc hend
  | @responseDone site reader hpc _ _ => exact observed_abandon reader hobserved (Or.inl hpc)
  | responseWanted hpc hsite hdone => exact observed_responseWanted hobserved hpc hsite hdone
  | @closed site reader hpc _ =>
      exact observed_abandon reader (hobserved.recordCancelled [reader]) (Or.inr hpc)
  | stillOpen hpc hopen =>
      rw [hpc] at hplaced
      exact observed_proceed hobserved hpc hplaced hopen
  | full hpc =>
      exact hobserved.drift (sameSignals_of_eq rfl) (by constructor <;> rfl) rfl rfl
        fun _ _ _ _ ↦ ⟨False.elim, fun hwill ↦ by rwa [hpc] at hwill⟩
  | tryPop hpc _ => exact observed_tryPop hobserved hpc
  | admitRequest hpc => exact observed_admitRequest scheduler hobserved hpc
  | prefill hpc => exact observed_prefill hobserved hpc
  | evict hpc => exact observed_evictAt scheduler hobserved hpc
  | park hpc _ =>
      exact hobserved.drift (sameSignals_of_eq rfl) (by constructor <;> rfl) rfl rfl
        fun _ _ _ _ ↦ ⟨False.elim, fun hwill ↦ by rwa [hpc] at hwill⟩
  | resume _ =>
      exact hobserved.drift (sameSignals_of_eq rfl) (by constructor <;> rfl) rfl rfl
        fun _ _ _ _ ↦ ⟨False.elim, fun _ ↦ trivial⟩
  | wake hpc _ =>
      exact hobserved.drift (sameSignals_of_eq rfl) (by constructor <;> rfl) rfl rfl
        fun _ _ _ _ ↦ ⟨False.elim, fun hwill ↦ by rwa [hpc] at hwill⟩
  | forward _ => exact observed_forward hobserved passed
  | failBatch _ => exact observed_failBatchAt hobserved
  | sampleToken hpc =>
      apply observed_sampleToken hobserved hpc
      exact fun seq hseq ↦ hslots.notDone_at hpc hseq (Nat.le_refl _)
  | sendItems _ => exact observed_sendItems hobserved
  | closeQueue _ => exact observed_closeQueue hobserved
  | answerQueued hpc => exact observed_answerQueued hobserved hpc
  | answerRunning _ => exact observed_answerRunning hobserved

/-- The connections can only signal more, and a new request comes from somebody else. -/
theorem observed_step {action : Action α} {origin : SlabKvCache (KvTensor α)}
    (hobserved : Observed client bound passed s)
    (hslots : Slots scheduler origin s.pc s.running s.kvCache)
    (hplaced : Placed s.pc s.running s.queue) (hstep : step scheduler action s = some s') :
    Observed client bound passed s' := by
  cases step_cases hstep with
  | @sched late _ _ =>
      exact observed_next hobserved hslots hplaced (show next scheduler late s = some s' from hstep)
  | schedShutdown hpc _ =>
      exact hobserved.drift (sameSignals_of_eq rfl) (by constructor <;> rfl) rfl rfl
        fun _ _ _ _ ↦ ⟨False.elim, fun _ ↦ trivial⟩
  | @refuse req late _ _ =>
      have hkept := hobserved.prune late
      exact ⟨hkept.signalled, hkept.accepted, hkept.queued, hkept.pending, hkept.candidate,
        hkept.running, hkept.resolved⟩
  | @accept req late hnew _ _ =>
      have hkept := hobserved.prune late
      refine ⟨hkept.signalled, ?_, ?_, hkept.pending, hkept.candidate, hkept.running,
        hkept.resolved⟩
      · change client ∈ (s.history.accepted ++ [req]).map GenerationRequest.client
        rw [List.map_append]
        exact List.mem_append_left _ hobserved.accepted
      · intro other hother
        rcases List.mem_append.mp hother with hold | hlast
        · exact hkept.queued other hold
        · obtain rfl := List.mem_singleton.mp hlast
          rintro rfl
          exact hnew.2 hobserved.accepted
  | notify _ =>
      exact ⟨hobserved.signalled, hobserved.accepted, hobserved.queued, hobserved.pending,
        hobserved.candidate, hobserved.running, hobserved.resolved⟩
  | @client other action after hact =>
      have hmonotone : ((s.clients client).receiverOpen = false →
            (Function.update s.clients other after client).receiverOpen = false) ∧
          ((s.clients client).responseDone = true →
            (Function.update s.clients other after client).responseDone = true) := by
        by_cases hother : client = other
        · rw [hother, Function.update_self]
          exact Client.act_signals hact
        · rw [Function.update_of_ne hother]
          exact ⟨id, id⟩
      refine ⟨hobserved.signalled.imp hmonotone.2 hmonotone.1, hobserved.accepted,
        hobserved.queued, hobserved.pending, ?_, ?_, hobserved.resolved⟩
      · intro seq hseq hclient
        have hwaiting := hobserved.candidate seq hseq hclient
        exact ⟨hwaiting.tokens_le, fun hpassed ↦ (hwaiting.lastPass hpassed).mono hmonotone.1⟩
      intro index seq hseq hclient
      exact (hobserved.running index seq hseq hclient).move
        (fun hmay ↦ Or.inr (hmay.anti hmonotone.1)) fun hwill ↦ Or.inr (hwill.mono hmonotone.1)
  | shutdown =>
      exact ⟨hobserved.signalled, hobserved.accepted, hobserved.queued, hobserved.pending,
        hobserved.candidate, hobserved.running, hobserved.resolved⟩

end Step

/-! ## Who is served -/

/-- The sequences that the scheduler serves: the batch, and the one that is being admitted. -/
def State.inService (s : State α) : List (Sequence α) := s.running ++ s.pc.candidate.toList

/-- The sequences of the pass that is about to be started. -/
def State.inPass (s : State α) : List (Sequence α) :=
  match s.pc with
  | .prefill seq => [seq]
  | .forward => s.running
  | _ => []

/-- No slot belongs to the client: every live handle is that of a sequence of somebody else. -/
def Released (client : ClientId) (s : State α) : Prop :=
  ∀ handle, s.kvCache.IsCurrentHandle handle →
    ∃ seq ∈ s.inService, seq.kvHandle = handle ∧ seq.client ≠ client

theorem places_perm_inService (s : State α) :
    s.places.Perm (s.queue.requests.map GenerationRequest.client ++
      (s.pc.pending.map GenerationRequest.client ++ (s.inService.map Sequence.client ++
        s.history.resolved.map Resolved.client))) := by
  have hmiddle := congrArg (fun clients : List ClientId ↦ (clients : Multiset ClientId))
    s.pc.pending_append_candidate
  unfold State.places State.inService
  rw [← Multiset.coe_eq_coe]
  simp only [← Multiset.coe_add, List.map_append] at hmiddle ⊢
  calc (s.queue.requests.map GenerationRequest.client : Multiset ClientId) +
          (s.pc.admitting.toList + (s.pc.drained.map GenerationRequest.client +
            (s.running.map Sequence.client + s.history.resolved.map Resolved.client)))
      = s.queue.requests.map GenerationRequest.client + ((s.pc.admitting.toList +
          s.pc.drained.map GenerationRequest.client) + (s.running.map Sequence.client +
            s.history.resolved.map Resolved.client)) := by abel
    _ = s.queue.requests.map GenerationRequest.client + ((s.pc.pending.map GenerationRequest.client +
          s.pc.candidate.toList.map Sequence.client) + (s.running.map Sequence.client +
            s.history.resolved.map Resolved.client)) := by rw [hmiddle]
    _ = _ := by abel

/-- A client that is served has its request in no other place. -/
structure OnlyServed (client : ClientId) (s : State α) : Prop where
  accepted : client ∈ s.history.accepted.map GenerationRequest.client
  queued : ∀ req ∈ s.queue.requests, req.client ≠ client
  pending : ∀ req ∈ s.pc.pending, req.client ≠ client
  unique : ∀ seq ∈ s.inService, ∀ other ∈ s.inService, seq.client = client → other.client = client →
    seq = other
  resolved : ∀ resolved ∈ s.history.resolved, resolved.client ≠ client

theorem onlyServed_of_mem [Floats α] (hbooks : Books s) {seq : Sequence α}
    (hseq : seq ∈ s.inService) : OnlyServed seq.client s := by
  have hperm := (places_perm_inService s).symm.trans hbooks.places_perm
  have hnodup := hperm.nodup_iff.mpr hbooks.nodup
  have hmem : seq.client ∈ s.inService.map Sequence.client := List.mem_map_of_mem hseq
  obtain ⟨-, hrest, hqueue⟩ := List.nodup_append'.mp hnodup
  obtain ⟨-, hserved, hpending⟩ := List.nodup_append'.mp hrest
  obtain ⟨hunique, -, hresolved⟩ := List.nodup_append'.mp hserved
  have hserved : seq.client ∈ s.inService.map Sequence.client ++
      s.history.resolved.map Resolved.client := List.mem_append_left _ hmem
  constructor
  case accepted =>
    exact hperm.subset (List.mem_append_right _ (List.mem_append_right _ hserved))
  case queued =>
    intro req hreq hclient
    exact hqueue (List.mem_map_of_mem hreq) (hclient ▸ List.mem_append_right _ hserved)
  case pending =>
    intro req hreq hclient
    exact hpending (List.mem_map_of_mem hreq) (hclient ▸ hserved)
  case unique =>
    intro left hleft right hright hclient hclient'
    exact List.inj_on_of_nodup_map hunique hleft hright (hclient.trans hclient'.symm)
  case resolved =>
    intro resolved hother hclient
    exact hresolved hmem (hclient ▸ List.mem_map_of_mem hother)

/-! ## From the signal on -/

/-- The loop is about to start a pass. -/
def Pc.AtPass : Pc α → Prop
  | prefill _ | forward => True
  | _ => False

/-- What a signal brings about for a sequence in service, from the state `s` on: one token more at
most, and when a decode pass or its own prefill has been started, no further pass is before its slot
is free again. A decode pass without it is not started before that either. -/
structure StopsWithinOneStep [Kernels α] (scheduler : Scheduler α) (s : State α) (seq : Sequence α) :
    Prop where
  tokens : ∀ u, Reaches scheduler Anything s u → ∀ later,
    later ∈ u.inService ∨ .sequence later ∈ u.history.resolved → later.client = seq.client →
      later.generatedTokens.length ≤ seq.generatedTokens.length + 1
  passes : ∀ t late t' u, Reaches scheduler Anything s t →
    (t.pc = .forward ∨ seq.client ∈ t.inPass.map Sequence.client) →
    next scheduler late t = some t' → Reaches scheduler Anything t' u → u.pc.AtPass →
      seq.client ∉ u.inPass.map Sequence.client ∧ Released seq.client u ∧
        seq.client ∈ u.history.resolved.map Resolved.client
  without : ∀ u, Reaches scheduler Anything s u → u.pc = .forward →
    seq.client ∉ u.inPass.map Sequence.client → Released seq.client u

section Run

variable {client : ClientId} {bound : ℕ} {passed : Prop} {s t t' u : State α}

theorem inPass_subset (s : State α) : s.inPass ⊆ s.inService := by
  unfold State.inPass
  split
  · rename_i seq hpc
    intro other hother
    obtain rfl := List.mem_singleton.mp hother
    unfold State.inService
    rw [hpc]
    exact List.mem_append_right _ (List.mem_singleton_self other)
  · exact List.subset_append_left _ _
  · exact List.nil_subset _

theorem observed_of_inService [Floats α] (hbooks : Books s) {seq : Sequence α}
    (hseq : seq ∈ s.inService) (hsignalled : Signalled seq.client s) :
    Observed seq.client seq.generatedTokens.length False s := by
  have honly := onlyServed_of_mem hbooks hseq
  constructor
  case signalled => exact hsignalled
  case accepted => exact honly.accepted
  case queued => exact honly.queued
  case pending => exact honly.pending
  case candidate =>
    intro other hother hclient
    have hmem : other ∈ s.inService := List.mem_append_right _ (Option.mem_toList.mpr hother)
    obtain rfl := honly.unique other hmem seq hseq hclient rfl
    exact ⟨Nat.le_refl _, False.elim⟩
  case running =>
    intro index other hother hclient
    have hmem : other ∈ s.inService := List.mem_append_left _ (List.mem_of_getElem? hother)
    obtain rfl := honly.unique other hmem seq hseq hclient rfl
    exact ⟨Nat.le_succ _, fun _ ↦ Or.inr (Nat.le_refl _), False.elim⟩
  case resolved =>
    intro other hother hclient
    exact absurd hclient (honly.resolved _ hother)

/-- Every sequence of the client has at most one token more. -/
theorem Observed.tokens_le (hobserved : Observed client bound passed s) {seq : Sequence α}
    (hseq : seq ∈ s.inService ∨ .sequence seq ∈ s.history.resolved) (hclient : seq.client = client) :
    seq.generatedTokens.length ≤ bound + 1 := by
  rcases hseq with hserved | hresolved
  · rcases List.mem_append.mp hserved with hrunning | hcandidate
    · obtain ⟨index, hindex⟩ := List.mem_iff_getElem?.mp hrunning
      exact (hobserved.running index seq hindex hclient).tokens_le
    · have hwaiting := hobserved.candidate seq (Option.mem_toList.mp hcandidate) hclient
      exact Nat.le_succ_of_le hwaiting.tokens_le
  · exact hobserved.resolved seq hresolved hclient

variable [Kernels α] {scheduler : Scheduler α} {origin : SlabKvCache (KvTensor α)}

/-- When one more pass has been started already, the next one finds the client gone. -/
theorem Observed.not_inService (hobserved : Observed client bound True s)
    (hslots : Slots scheduler origin s.pc s.running s.kvCache) (hpass : s.pc.AtPass)
    {seq : Sequence α} (hseq : seq ∈ s.inService) : seq.client ≠ client := by
  intro hclient
  have hunchecked : (∀ gone index, ¬ s.pc.WillCheck gone index) ∧
      (∀ gone, ¬ s.pc.WillCheckCandidate gone) ∧ ∀ index, s.pc.Unvisited index := by
    cases hpc : s.pc with
    | prefill _ | forward => exact ⟨fun _ _ ↦ id, fun _ ↦ id, fun _ ↦ trivial⟩
    | _ =>
        rw [hpc] at hpass
        cases hpass
  obtain ⟨hrow, hcandidate, hunvisited⟩ := hunchecked
  rcases List.mem_append.mp hseq with hrunning | hadmitted
  · obtain ⟨index, hindex⟩ := List.mem_iff_getElem?.mp hrunning
    have hnotDone := hslots.notDone index seq (hunvisited index) hindex
    rcases (hobserved.running index seq hindex hclient).lastPass trivial with hdone | hwill
    · exact Bool.false_ne_true (hnotDone.symm.trans hdone)
    · exact hrow _ _ hwill
  · have hwaiting := hobserved.candidate seq (Option.mem_toList.mp hadmitted) hclient
    exact hcandidate _ (hwaiting.lastPass trivial)

omit [Kernels α] in
theorem released_of_not_inService [Zero α]
    (hslots : Slots scheduler origin s.pc s.running s.kvCache)
    (hothers : ∀ seq ∈ s.inService, seq.client ≠ client) : Released client s := by
  intro handle hcurrent
  obtain ⟨seq, hseq, hhandle⟩ := List.mem_map.mp ((hslots.current_iff handle).mp hcurrent)
  exact ⟨seq, hseq, hhandle, hothers seq hseq⟩

omit [Kernels α] in
theorem Observed.resolved_of_not_inService [Floats α] (hobserved : Observed client bound passed s)
    (hbooks : Books s) (hothers : ∀ seq ∈ s.inService, seq.client ≠ client) :
    client ∈ s.history.resolved.map Resolved.client := by
  have hperm := (places_perm_inService s).symm.trans hbooks.places_perm
  rcases List.mem_append.mp (hperm.symm.subset hobserved.accepted) with hqueued | hrest
  · obtain ⟨req, hreq, hclient⟩ := List.mem_map.mp hqueued
    exact absurd hclient (hobserved.queued req hreq)
  rcases List.mem_append.mp hrest with hpending | hrest
  · obtain ⟨req, hreq, hclient⟩ := List.mem_map.mp hpending
    exact absurd hclient (hobserved.pending req hreq)
  rcases List.mem_append.mp hrest with hserved | hresolved
  · obtain ⟨seq, hseq, hclient⟩ := List.mem_map.mp hserved
    exact absurd hclient (hothers seq hseq)
  · exact hresolved

/-- The pass after which the client is looked at. -/
theorem Observed.pass {late : List ClientId} (hobserved : Observed client bound passed t)
    (hbooks : Books t) (hslots : Slots scheduler origin t.pc t.running t.kvCache)
    (hpass : t.pc = .forward ∨ client ∈ t.inPass.map Sequence.client)
    (hnext : next scheduler late t = some t') : Observed client bound True t' := by
  have hforward : t.pc = .forward → Observed client bound True t' := by
    intro hpc
    have hstep : next scheduler late t = some (forward scheduler t) := by rw [next, hpc]
    obtain rfl := Option.some.inj (hstep.symm.trans hnext)
    exact observed_forward hobserved True
  rcases hpass with hpc | hmem
  · exact hforward hpc
  obtain ⟨seq, hseq, rfl⟩ := List.mem_map.mp hmem
  have honly := onlyServed_of_mem hbooks (inPass_subset t hseq)
  cases hpc : t.pc with
  | forward => exact hforward hpc
  | prefill admitted =>
      have hinPass : t.inPass = [admitted] := by rw [State.inPass, hpc]
      obtain rfl : seq = admitted := List.mem_singleton.mp (hinPass ▸ hseq)
      have hstep : next scheduler late t = some (prefill scheduler seq t) := by rw [next, hpc]
      obtain rfl := Option.some.inj (hstep.symm.trans hnext)
      have hcandidate : seq ∈ t.pc.candidate := by rw [hpc]; exact Option.mem_some_self seq
      apply (observed_prefill hobserved hpc).afterPass True
      · intro index other hother hclient
        have hrunning : (prefill scheduler seq t).running = t.running := by
          unfold prefill
          split <;> rfl
        rw [hrunning] at hother
        have hserved : other ∈ t.inService :=
          List.mem_append_left _ (List.mem_of_getElem? hother)
        obtain rfl := honly.unique other hserved seq (inPass_subset t hseq) hclient rfl
        exact absurd rfl (hslots.candidate_ne hcandidate (List.mem_of_getElem? hother))
      · intro other hother _
        unfold prefill at hother ⊢
        split at hother
        · cases hother
        · trivial
  | _ =>
      have hinPass : t.inPass = [] := by rw [State.inPass, hpc]
      rw [hinPass] at hseq
      cases hseq

/-- The invariant along the rest of the run. -/
theorem Observed.reaches {maxSeqs maxSeqLen numLayers nHeads headDim maxDepth : ℕ}
    {capacity : ClientId → ℕ} (hobserved : Observed client bound passed s)
    (hreach : Reaches scheduler Anything
      (init (.new maxSeqs maxSeqLen numLayers nHeads headDim) maxDepth capacity) s)
    (hlater : Reaches scheduler Anything s u) : Observed client bound passed u := by
  refine hlater.invariant ?_ hobserved
  intro before after action hbefore hkept _ hnext
  have hwhole := hreach.trans hbefore
  exact observed_step hkept (slots_reachable hwhole) (placed_reachable hwhole) hnext

/-- A signalled sequence stops within one step of the scheduler. -/
theorem stopsWithinOneStep {maxSeqs maxSeqLen numLayers nHeads headDim maxDepth : ℕ}
    {capacity : ClientId → ℕ}
    (hreach : Reaches scheduler Anything
      (init (.new maxSeqs maxSeqLen numLayers nHeads headDim) maxDepth capacity) s)
    {seq : Sequence α} (hseq : seq ∈ s.inService) (hsignalled : Signalled seq.client s) :
    StopsWithinOneStep scheduler s seq := by
  have hobserved := observed_of_inService (books_reachable hreach) hseq hsignalled
  constructor
  case tokens =>
    intro u hu later hlater hclient
    exact (hobserved.reaches hreach hu).tokens_le hlater hclient
  case passes =>
    intro t late t' u ht hpass hnext hu hatPass
    have hreachT := hreach.trans ht
    have hsched : step scheduler (.sched late) t = some t' := hnext
    have hreachT' := hreachT.step trivial hsched
    have hreachU := hreachT'.trans hu
    have hslots := slots_reachable hreachU
    have hafter := (hobserved.reaches hreach ht).pass (books_reachable hreachT)
      (slots_reachable hreachT) hpass hnext
    have hobservedU := hafter.reaches hreachT' hu
    have hothers : ∀ other ∈ u.inService, other.client ≠ seq.client :=
      fun other hother ↦ hobservedU.not_inService hslots hatPass hother
    refine ⟨?_, released_of_not_inService hslots hothers,
      hobservedU.resolved_of_not_inService (books_reachable hreachU) hothers⟩
    intro hmem
    obtain ⟨other, hother, hclient⟩ := List.mem_map.mp hmem
    exact hothers other (inPass_subset u hother) hclient
  case without =>
    intro u hu hpc habsent
    apply released_of_not_inService (slots_reachable (hreach.trans hu))
    intro other hother hclient
    have hserved : u.inService = u.inPass := by
      rw [State.inService, State.inPass, hpc]
      exact List.append_nil _
    rw [hserved] at hother
    exact habsent (List.mem_map.mpr ⟨other, hother, hclient⟩)

end Run

end Scheduler

end HotBatch
