import HotBatch.Foundation.Custody
import HotBatch.Scheduler.Slots

/-!
# The ledger of a request

Every accepted request is somewhere: in the queue, taken out of it, in `running`, or dropped. The
ledger says what must have happened on its channel for each of these places: nothing before it gets
into `running`, an open account while it is there, and a closed one afterwards.

An account compares the updates handed to `try_send_tokens` with the tokens that the sequence has
released and with the items that went out. Only the last update may carry a finish reason or have
been refused, and only an account without either may end with an error.
-/

namespace HotBatch

/-! ## Views -/

/-- What has happened on one channel. -/
structure View where
  outgoing : List StreamItem
  updates : List Update
  cancelled : ℕ

def View.blank : View := ⟨[], [], 0⟩

/-- The update went out and more may follow. -/
def Update.IsOpen (update : Update) : Prop :=
  update.delivered = true ∧ update.finishReason = none

def AtMostOneError (items : List StreamItem) : Prop :=
  items = [] ∨ ∃ message, items = [.error message]

/-- What giving up a request does on its channel: at most one error goes out, and at most one
disconnect is counted. -/
structure View.GivenUp (before after : View) : Prop where
  updates : after.updates = before.updates
  outgoing : ∃ errors, AtMostOneError errors ∧ after.outgoing = before.outgoing ++ errors
  cancelled_le : after.cancelled ≤ before.cancelled + 1

theorem Update.items_eq (update : Update) :
    update.items = update.tokens.map .token ++ (update.finishReason.map .finished).toList := rfl

theorem Update.IsOpen.items_eq {update : Update} (hopen : update.IsOpen) :
    update.items = update.tokens.map .token := by
  rw [Update.items_eq, hopen.2]
  exact List.append_nil _

/-- Open updates have sent nothing but their tokens. -/
theorem flatMap_items_of_isOpen {updates : List Update} (hopen : ∀ update ∈ updates, update.IsOpen) :
    updates.flatMap Update.items = (updates.flatMap Update.tokens).map .token := by
  rw [List.map_flatMap]
  exact List.flatMap_congr fun update hupdate ↦ (hopen update hupdate).items_eq

theorem filter_delivered_of_isOpen {updates : List Update}
    (hopen : ∀ update ∈ updates, update.IsOpen) : updates.filter Update.delivered = updates :=
  List.filter_eq_self.mpr fun update hupdate ↦ (hopen update hupdate).1

/-! ## Accounts -/

namespace Sequence

variable {α : Type}

theorem cancel_eq (seq : Sequence α) : seq.cancel = { seq with state := seq.cancel.state } := by
  unfold cancel
  split <;> rfl

theorem fail_eq (seq : Sequence α) : seq.fail = { seq with state := seq.fail.state } := by
  unfold fail
  split <;> rfl

theorem markRunning_eq (seq : Sequence α) :
    seq.markRunning = { seq with state := seq.markRunning.state } := by
  unfold markRunning
  split <;> rfl

/-- Nothing has been generated yet. -/
structure Unstarted (seq : Sequence α) : Prop where
  generatedTokens : seq.generatedTokens = []
  emittedTokens : seq.emittedTokens = 0
  finishReason : seq.finishReason = none

theorem Unstarted.withState {seq : Sequence α} (hunstarted : seq.Unstarted) (state : SequenceState) :
    ({ seq with state := state } : Sequence α).Unstarted :=
  ⟨hunstarted.generatedTokens, hunstarted.emittedTokens, hunstarted.finishReason⟩

/-- The account of a sequence that goes on. -/
structure Live (seq : Sequence α) (view : View) : Prop where
  finishReason : seq.finishReason = none
  emitted_le : seq.emittedTokens ≤ seq.safeEnd
  taken : view.updates.flatMap Update.tokens = seq.takenTokens
  isOpen : ∀ update ∈ view.updates, update.IsOpen
  outgoing : view.outgoing = view.updates.flatMap Update.items
  cancelled : view.cancelled = 0

/-- All updates were open, whatever has stopped the sequence since then. -/
structure Interrupted (view : View) : Prop where
  isOpen : ∀ update ∈ view.updates, update.IsOpen
  outgoing : ∃ errors, AtMostOneError errors ∧
    view.outgoing = view.updates.flatMap Update.items ++ errors

/-- The last update has finished the sequence, or was refused. -/
structure Concluded (seq : Sequence α) (view : View) (earlier : List Update) (last : Update) :
    Prop where
  updates : view.updates = earlier ++ [last]
  isOpen : ∀ update ∈ earlier, update.IsOpen
  outgoing : view.outgoing =
    earlier.flatMap Update.items ++ if last.delivered then last.items else []
  finishReason : last.finishReason = seq.finishReason
  emitted : seq.emittedTokens = seq.safeEnd

/-- The account of any sequence. -/
structure Account (seq : Sequence α) (view : View) : Prop where
  taken : view.updates.flatMap Update.tokens = seq.takenTokens
  emitted_le : seq.emittedTokens ≤ seq.safeEnd
  ending : Interrupted view ∨ ∃ earlier last, Concluded seq view earlier last
  cancelled_le : view.cancelled ≤ 1

variable {seq : Sequence α} {view : View}

theorem Unstarted.live (hunstarted : seq.Unstarted) : seq.Live .blank where
  finishReason := hunstarted.finishReason
  emitted_le := hunstarted.emittedTokens ▸ Nat.zero_le _
  taken := by
    unfold takenTokens
    rw [hunstarted.emittedTokens]
    rfl
  isOpen := fun _ hupdate ↦ nomatch hupdate
  outgoing := rfl
  cancelled := rfl

/-- A sequence may be cancelled or failed at any time. -/
theorem Live.giveUp (hlive : seq.Live view) {after : View} (hgivenUp : view.GivenUp after)
    (state : SequenceState) : ({ seq with state := state } : Sequence α).Account after where
  taken := by
    rw [hgivenUp.updates]
    exact hlive.taken
  emitted_le := hlive.emitted_le
  ending := by
    left
    obtain ⟨errors, herrors, houtgoing⟩ := hgivenUp.outgoing
    constructor
    · rw [hgivenUp.updates]
      exact hlive.isOpen
    · rw [houtgoing, hgivenUp.updates, hlive.outgoing]
      exact ⟨errors, herrors, rfl⟩
  cancelled_le := by
    have hle := hgivenUp.cancelled_le
    rwa [hlive.cancelled] at hle

theorem Live.account (hlive : seq.Live view) : seq.Account view where
  taken := hlive.taken
  emitted_le := hlive.emitted_le
  ending := by
    left
    exact ⟨hlive.isOpen, [], Or.inl rfl, by rw [List.append_nil, hlive.outgoing]⟩
  cancelled_le := by
    rw [hlive.cancelled]
    exact Nat.zero_le 1

section Advance

variable [Floats α] {row : LogitRow α} {tokens : List Token} {stepped : Sequence α}

/-- The tokens of an update are the next ones that the sequence releases. -/
theorem Live.taken_advance (hlive : seq.Live view) (hadvance : seq.advance row = some (tokens, stepped))
    (client : ClientId) (delivered : Bool) :
    (view.updates ++ [Update.mk client tokens stepped.finishReason delivered]).flatMap
      Update.tokens = stepped.takenTokens := by
  have hemitted : seq.emittedTokens ≤ seq.generatedTokens.length :=
    hlive.emitted_le.trans seq.safeEnd_le
  calc (view.updates ++ [Update.mk client tokens stepped.finishReason delivered]).flatMap
          Update.tokens
      = view.updates.flatMap Update.tokens ++ tokens := by
        rw [List.flatMap_append, List.flatMap_singleton]
    _ = seq.takenTokens ++ tokens := by rw [hlive.taken]
    _ = stepped.takenTokens := (advance_takenTokens hadvance hemitted).symm

/-- The account after one more update, delivered or refused. -/
theorem Live.advance_account (hlive : seq.Live view)
    (hadvance : seq.advance row = some (tokens, stepped)) (client : ClientId) (delivered : Bool)
    (state : SequenceState) {count : ℕ} (hcount : count ≤ 1) :
    ({ stepped with state := state } : Sequence α).Account
      ⟨view.outgoing ++ (if delivered then updateItems tokens stepped.finishReason else []),
        view.updates ++ [Update.mk client tokens stepped.finishReason delivered],
        view.cancelled + count⟩ where
  taken := hlive.taken_advance hadvance client delivered
  emitted_le := by
    have hemitted := advance_emittedTokens hadvance
    exact hemitted.le
  ending := by
    right
    have hemitted := advance_emittedTokens hadvance
    exact ⟨view.updates, _, rfl, hlive.isOpen,
      congrArg (· ++ if delivered then updateItems tokens stepped.finishReason else [])
        hlive.outgoing, rfl, hemitted⟩
  cancelled_le := by
    rw [hlive.cancelled, Nat.zero_add]
    exact hcount

/-- A delivered update leaves the account open unless it finishes the sequence. -/
theorem Live.advance (hlive : seq.Live view) (hadvance : seq.advance row = some (tokens, stepped))
    (client : ClientId) (hdone : stepped.isDone = false) :
    stepped.Live ⟨view.outgoing ++ updateItems tokens stepped.finishReason,
      view.updates ++ [Update.mk client tokens stepped.finishReason true], view.cancelled⟩ := by
  have hreason : stepped.finishReason = none := by
    rcases advance_state hadvance hlive.finishReason with ⟨hstate, -⟩ | ⟨-, hreason, -⟩
    · rw [isDone, hstate] at hdone
      cases hdone
    · exact hreason
  constructor
  case finishReason => exact hreason
  case emitted_le => exact (advance_emittedTokens hadvance).le
  case taken => exact hlive.taken_advance hadvance client true
  case cancelled => exact hlive.cancelled
  case isOpen =>
    intro update hupdate
    rcases List.mem_append.mp hupdate with hold | hnew
    · exact hlive.isOpen update hold
    · rw [List.mem_singleton.mp hnew]
      exact ⟨rfl, hreason⟩
  case outgoing =>
    dsimp only
    rw [List.flatMap_append, List.flatMap_singleton, hlive.outgoing]
    rfl

end Advance

/-- **What an account says about the channel**: tokens that the sequence has released, in order, and
then at most one terminal item. -/
theorem Account.outgoing (haccount : seq.Account view) :
    ∃ tokens ends, view.outgoing = tokens.map .token ++ ends ∧ ends.length ≤ 1 ∧
      (∀ token, .token token ∉ ends) ∧ tokens <+: seq.takenTokens ∧
      ∀ reason, .finished reason ∈ ends →
        seq.finishReason = some reason ∧ seq.emittedTokens = seq.safeEnd ∧
          tokens = seq.takenTokens := by
  rcases haccount.ending with hinterrupted | ⟨earlier, last, hconcluded⟩
  · obtain ⟨errors, herrors, houtgoing⟩ := hinterrupted.outgoing
    refine ⟨view.updates.flatMap Update.tokens, errors, ?_, ?_, ?_, ?_, ?_⟩
    · rw [houtgoing, flatMap_items_of_isOpen hinterrupted.isOpen]
    · rcases herrors with rfl | ⟨message, rfl⟩
      · exact Nat.zero_le 1
      · exact Nat.le_refl 1
    · rcases herrors with rfl | ⟨message, rfl⟩ <;> simp
    · rw [haccount.taken]
    · rcases herrors with rfl | ⟨message, rfl⟩ <;> simp
  · have htaken : seq.takenTokens = earlier.flatMap Update.tokens ++ last.tokens := by
      rw [← haccount.taken, hconcluded.updates, List.flatMap_append, List.flatMap_singleton]
    have hearlier : earlier.flatMap Update.items = (earlier.flatMap Update.tokens).map .token :=
      flatMap_items_of_isOpen hconcluded.isOpen
    have houtgoing := hconcluded.outgoing
    cases hdelivered : last.delivered with
    | false =>
        rw [hdelivered, if_neg Bool.false_ne_true] at houtgoing
        refine ⟨earlier.flatMap Update.tokens, [], ?_, Nat.zero_le 1, ?_, ?_, ?_⟩
        · rw [houtgoing, hearlier]
        · exact fun _ ↦ List.not_mem_nil
        · rw [htaken]
          exact List.prefix_append _ _
        · exact fun _ hreason ↦ absurd hreason List.not_mem_nil
    | true =>
        rw [hdelivered, if_pos rfl, Update.items_eq, ← List.append_assoc, hearlier,
          ← List.map_append, ← htaken] at houtgoing
        refine ⟨seq.takenTokens, _, houtgoing, ?_, ?_, List.prefix_rfl, ?_⟩
        · cases last.finishReason <;> simp
        · intro token htoken
          cases hreason : last.finishReason with
          | none => simp [hreason] at htoken
          | some reason => simp [hreason] at htoken
        · intro reason hmem
          rw [hconcluded.finishReason] at hmem
          cases hreason : seq.finishReason with
          | none => simp [hreason] at hmem
          | some found =>
              rw [hreason] at hmem
              obtain rfl : reason = found := by simpa using hmem
              exact ⟨rfl, hconcluded.emitted, rfl⟩

/-- **Updates go out as a whole or not at all**; an error may follow them. -/
theorem Account.delivered (haccount : seq.Account view) :
    ∃ errors, AtMostOneError errors ∧
      view.outgoing = (view.updates.filter Update.delivered).flatMap Update.items ++ errors := by
  rcases haccount.ending with hinterrupted | ⟨earlier, last, hconcluded⟩
  · rw [filter_delivered_of_isOpen hinterrupted.isOpen]
    exact hinterrupted.outgoing
  · refine ⟨[], Or.inl rfl, ?_⟩
    rw [hconcluded.outgoing, hconcluded.updates, List.filter_append,
      filter_delivered_of_isOpen hconcluded.isOpen, List.flatMap_append, List.append_nil]
    cases hdelivered : last.delivered with
    | false => simp [hdelivered]
    | true => simp [hdelivered]

end Sequence

end HotBatch
