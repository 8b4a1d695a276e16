import HotBatch.Scheduler.Protocol

/-!
# The allowance of a request

A request may put `maxNewTokens` tokens and one terminal item on its channel. A channel with more
places than tokens has room for all of them, whether or not they are read. What has gone out for a
sequence that goes on is less than its allowance, and its next update is within it.

A request is unanswered as long as its terminal item is to come. It has ended when the engine is done
with its channel: then the terminal item has gone out, unless the channel was too small, nobody read
it any more, or `response_done` was set.
-/

namespace HotBatch

/-- The item after which nothing follows. -/
def StreamItem.isTerminal : StreamItem → Bool
  | token _ => false
  | finished _ | error _ => true

/-- There is a token to generate, the channel has a place for every token and one more, and the
receiver has not been dropped. -/
structure Client.Ample (limit : ℕ) (client : Client) : Prop where
  limit_pos : 0 < limit
  limit_lt : limit < client.capacity
  receiverOpen : client.receiverOpen = true

namespace Client.Ample

variable {limit : ℕ} {client : Client}

theorem isClosed (hample : client.Ample limit) : client.isClosed = false := by
  rw [Client.isClosed, hample.receiverOpen]
  rfl

/-- Places that nobody has read are enough. -/
theorem tryReserveMany (hample : client.Ample limit) {count : ℕ}
    (hcount : client.sent.length + count ≤ limit + 1) : client.tryReserveMany count = true := by
  have hlt := hample.limit_lt
  have hroom : count ≤ client.room := by
    unfold Client.room
    omega
  unfold Client.tryReserveMany
  rw [hample.receiverOpen, decide_eq_true hroom]
  exact Bool.or_true _

/-- Nothing that the connection does makes a channel ample. -/
theorem of_act {client' : Client} {action : ClientAction} (hact : client.act action = some client')
    (hample : client'.Ample limit) : client.Ample limit := by
  cases action with
  | recv =>
      obtain ⟨rfl, -⟩ := Client.act_recv hact
      exact ⟨hample.limit_pos, hample.limit_lt, hample.receiverOpen⟩
  | dropReceiver =>
      obtain rfl := Option.some.inj hact
      cases hample.receiverOpen
  | cancelDone =>
      obtain rfl := Option.some.inj hact
      exact ⟨hample.limit_pos, hample.limit_lt, hample.receiverOpen⟩

end Client.Ample

theorem countP_isTerminal_tokens (tokens : List Token) :
    (tokens.map StreamItem.token).countP StreamItem.isTerminal = 0 := by
  rw [List.countP_eq_zero]
  intro item hitem
  obtain ⟨token, -, rfl⟩ := List.mem_map.mp hitem
  exact Bool.false_ne_true

/-- A terminal item after the tokens is the only one. -/
theorem countP_isTerminal_concat (tokens : List Token) {last : StreamItem}
    (hlast : last.isTerminal = true) :
    (tokens.map StreamItem.token ++ [last]).countP StreamItem.isTerminal = 1 := by
  rw [List.countP_append, countP_isTerminal_tokens, List.countP_singleton, if_pos hlast]

theorem wellFormed_tokens (tokens : List Token) : WellFormed (tokens.map .token) :=
  ⟨tokens, [], (List.append_nil _).symm, Nat.zero_le 1, fun _ ↦ List.not_mem_nil⟩

theorem wellFormed_concat (tokens : List Token) {last : StreamItem}
    (hlast : last.isTerminal = true) : WellFormed (tokens.map .token ++ [last]) := by
  refine ⟨tokens, [last], rfl, Nat.le_refl 1, fun token htoken ↦ ?_⟩
  rw [← List.mem_singleton.mp htoken] at hlast
  cases hlast

namespace Sequence

variable {α : Type}

/-- A sequence that goes on, below the limit of its request. -/
structure Going (req : GenerationRequest α) (seq : Sequence α) (view : View) : Prop where
  client_eq : seq.client = req.client
  maxNewTokens_eq : seq.sampler.maxNewTokens = req.maxNewTokens
  notDone : seq.isDone = false
  live : seq.Live view
  generated_lt : 0 < req.maxNewTokens → seq.generatedTokens.length < req.maxNewTokens

theorem going_ofRequest (req : GenerationRequest α) (handle : KvHandle) :
    (ofRequest req handle).Going req .blank where
  client_eq := rfl
  maxNewTokens_eq := rfl
  notDone := rfl
  live := Unstarted.live ⟨rfl, rfl, rfl⟩
  generated_lt := fun hpos ↦ hpos

namespace Going

variable {req : GenerationRequest α} {seq : Sequence α} {view : View}

theorem markRunning (hgoing : seq.Going req view) : seq.markRunning.Going req view := by
  have hdone : seq.markRunning.isDone = false := seq.markRunning_isDone.trans hgoing.notDone
  rw [markRunning_eq] at hdone ⊢
  obtain ⟨hreason, hemitted, htaken, hisOpen, houtgoing, hcancelled⟩ := hgoing.live
  exact ⟨hgoing.client_eq, hgoing.maxNewTokens_eq, hdone,
    ⟨hreason, hemitted, htaken, hisOpen, houtgoing, hcancelled⟩, hgoing.generated_lt⟩

/-- Nothing but tokens has gone out. -/
theorem outgoing_eq (hgoing : seq.Going req view) :
    view.outgoing = seq.takenTokens.map .token := by
  rw [hgoing.live.outgoing, flatMap_items_of_isOpen hgoing.live.isOpen, hgoing.live.taken]

theorem wellFormed (hgoing : seq.Going req view) : WellFormed view.outgoing :=
  hgoing.outgoing_eq ▸ wellFormed_tokens _

theorem length_lt (hgoing : seq.Going req view) (hpos : 0 < req.maxNewTokens) :
    view.outgoing.length < req.maxNewTokens :=
  calc view.outgoing.length
      = seq.takenTokens.length := by rw [hgoing.outgoing_eq, List.length_map]
    _ ≤ seq.generatedTokens.length := List.length_take_le' _ _
    _ < req.maxNewTokens := hgoing.generated_lt hpos

variable [Floats α] {row : LogitRow α} {tokens : List Token} {stepped : Sequence α}

/-- The slice that is taken is always in range. -/
theorem exists_advance (hgoing : seq.Going req view) (row : LogitRow α) :
    ∃ tokens stepped, seq.advance row = some (tokens, stepped) := by
  refine ⟨_, _, advance_eq_some.mpr ⟨?_, rfl, rfl⟩⟩
  exact hgoing.live.emitted_le.trans (safeEnd_le_appendSampled row seq)

/-- What has gone out together with the next update. -/
theorem outgoing_append (hgoing : seq.Going req view)
    (hadvance : seq.advance row = some (tokens, stepped)) :
    view.outgoing ++ updateItems tokens stepped.finishReason =
      stepped.takenTokens.map .token ++ (stepped.finishReason.map .finished).toList := by
  have hemitted := hgoing.live.emitted_le.trans seq.safeEnd_le
  unfold updateItems
  rw [hgoing.outgoing_eq, advance_takenTokens hadvance hemitted, List.map_append, List.append_assoc]

/-- The next update is within the allowance. -/
theorem length_append_le (hgoing : seq.Going req view)
    (hadvance : seq.advance row = some (tokens, stepped)) (hpos : 0 < req.maxNewTokens) :
    view.outgoing.length + (updateItems tokens stepped.finishReason).length ≤
      req.maxNewTokens + 1 := by
  obtain ⟨-, -, -, -, -, -, hgenerated⟩ := advance_frame hadvance
  have htaken : stepped.takenTokens.length ≤ req.maxNewTokens :=
    calc stepped.takenTokens.length
        ≤ stepped.generatedTokens.length := List.length_take_le' _ _
      _ = seq.generatedTokens.length + 1 := by rw [hgenerated, List.length_append]; rfl
      _ ≤ req.maxNewTokens := hgoing.generated_lt hpos
  have hends : (stepped.finishReason.map StreamItem.finished).toList.length ≤ 1 := by
    cases stepped.finishReason <;> simp
  rw [← List.length_append, hgoing.outgoing_append hadvance, List.length_append, List.length_map]
  exact Nat.add_le_add htaken hends

/-- A delivered update finishes the sequence, or leaves it going. -/
theorem advance (hgoing : seq.Going req view)
    (hadvance : seq.advance row = some (tokens, stepped)) (client : ClientId)
    (hdone : stepped.isDone = false) :
    stepped.Going req ⟨view.outgoing ++ updateItems tokens stepped.finishReason,
      view.updates ++ [Update.mk client tokens stepped.finishReason true], view.cancelled⟩ := by
  obtain ⟨-, -, -, hclient, -, hsampler, hgenerated⟩ := advance_frame hadvance
  have hlimit : stepped.sampler.maxNewTokens = req.maxNewTokens := by
    rw [hsampler, ← hgoing.maxNewTokens_eq]
    unfold Sampler.maxNewTokens
    rw [Sampler.sample_config]
  refine ⟨hclient.trans hgoing.client_eq, hlimit, hdone,
    hgoing.live.advance hadvance client hdone, fun _ ↦ ?_⟩
  rcases advance_state hadvance hgoing.live.finishReason with ⟨hstate, -⟩ | ⟨-, -, hlt⟩
  · rw [isDone, hstate] at hdone
    cases hdone
  · rw [hgenerated, List.length_append, ← hgoing.maxNewTokens_eq]
    exact hlt

/-- The update that finishes the sequence ends with its terminal item. -/
theorem exists_finish (hgoing : seq.Going req view)
    (hadvance : seq.advance row = some (tokens, stepped)) (hdone : stepped.isDone = true) :
    ∃ reason, view.outgoing ++ updateItems tokens stepped.finishReason =
      stepped.takenTokens.map .token ++ [.finished reason] := by
  rcases advance_state hadvance hgoing.live.finishReason with ⟨-, hsome⟩ | ⟨hstate, -⟩
  · obtain ⟨reason, hreason⟩ := Option.isSome_iff_exists.mp hsome
    refine ⟨reason, (hgoing.outgoing_append hadvance).trans ?_⟩
    rw [hreason]
    rfl
  · have hsame : stepped.isDone = seq.isDone := by
      unfold isDone
      rw [hstate]
    rw [hsame, hgoing.notDone] at hdone
    cases hdone

end Going

end Sequence

/-! ## Before and after the terminal item -/

section Terminal

variable {α : Type}

/-- Only tokens have gone out, and the terminal item is still to come. -/
structure Unanswered (req : GenerationRequest α) (view : View) : Prop where
  tokens : ∃ tokens : List Token, view.outgoing = tokens.map .token
  length_le : 0 < req.maxNewTokens → view.outgoing.length ≤ req.maxNewTokens
  delivered : ∀ update ∈ view.updates, update.delivered = true
  cancelled : view.cancelled = 0

/-- The engine is done with the channel. -/
structure Ended (req : GenerationRequest α) (client : Client) (view : View) : Prop where
  wellFormed : WellFormed view.outgoing
  length_le : client.Ample req.maxNewTokens → view.outgoing.length ≤ req.maxNewTokens + 1
  delivered : client.Ample req.maxNewTokens → ∀ update ∈ view.updates, update.delivered = true
  cancelled : client.Ample req.maxNewTokens → view.cancelled = 0
  terminal : client.Ample req.maxNewTokens →
    client.responseDone = true ∨ view.outgoing.countP StreamItem.isTerminal = 1

theorem unanswered_blank (req : GenerationRequest α) : Unanswered req .blank :=
  ⟨⟨[], rfl⟩, fun _ ↦ Nat.zero_le _, fun _ hupdate ↦ absurd hupdate List.not_mem_nil, rfl⟩

namespace Unanswered

variable {req : GenerationRequest α} {view : View}

theorem wellFormed (hunanswered : Unanswered req view) : WellFormed view.outgoing := by
  obtain ⟨tokens, htokens⟩ := hunanswered.tokens
  exact htokens ▸ wellFormed_tokens tokens

/-- Nothing more is owed once `response_done` is set. -/
theorem ended_of_done (hunanswered : Unanswered req view) {client : Client}
    (hdone : client.responseDone = true) : Ended req client view where
  wellFormed := hunanswered.wellFormed
  length_le hample := Nat.le_succ_of_le (hunanswered.length_le hample.limit_pos)
  delivered _ := hunanswered.delivered
  cancelled _ := hunanswered.cancelled
  terminal _ := Or.inl hdone

/-- Nothing more is owed to a channel that cannot take it. -/
theorem ended_of_not_ample (hunanswered : Unanswered req view) {client : Client} {after : View}
    (hsame : after.outgoing = view.outgoing) (hnot : ¬ client.Ample req.maxNewTokens) :
    Ended req client after where
  wellFormed := hsame ▸ hunanswered.wellFormed
  length_le hample := absurd hample hnot
  delivered hample := absurd hample hnot
  cancelled hample := absurd hample hnot
  terminal hample := absurd hample hnot

/-- There is room for an error. -/
theorem room (hunanswered : Unanswered req view) {client : Client}
    (hsent : client.sent = view.outgoing) (hample : client.Ample req.maxNewTokens) :
    client.tryReserveMany 1 = true := by
  apply hample.tryReserveMany
  rw [hsent]
  exact Nat.succ_le_succ (hunanswered.length_le hample.limit_pos)

theorem trySendError_eq (hunanswered : Unanswered req view) {client : Client}
    (hsent : client.sent = view.outgoing) (hample : client.Ample req.maxNewTokens)
    (message : String) : client.trySendError message = client.send (.error message) :=
  if_pos (hunanswered.room hsent hample)

/-- An error is a terminal item, if the channel can take it. -/
theorem trySendError (hunanswered : Unanswered req view) {client : Client}
    (hsent : client.sent = view.outgoing) (message : String) :
    Ended req (client.trySendError message)
      ⟨(client.trySendError message).sent, view.updates, view.cancelled⟩ := by
  obtain ⟨tokens, htokens⟩ := hunanswered.tokens
  unfold Client.trySendError Client.trySend
  split
  · have houtgoing : (client.send (.error message)).sent = tokens.map .token ++ [.error message] := by
      rw [← htokens, ← hsent]
      rfl
    rw [houtgoing]
    constructor
    case wellFormed => exact wellFormed_concat tokens rfl
    case length_le =>
      intro hample
      have hle := hunanswered.length_le hample.limit_pos
      rw [htokens] at hle
      rw [List.length_append]
      exact Nat.succ_le_succ hle
    case delivered => exact fun _ ↦ hunanswered.delivered
    case cancelled => exact fun _ ↦ hunanswered.cancelled
    case terminal => exact fun _ ↦ Or.inr (countP_isTerminal_concat tokens rfl)
  · rename_i hrefused
    exact hunanswered.ended_of_not_ample hsent fun hample ↦
      hrefused (hunanswered.room hsent hample)

end Unanswered

/-- Only the signals of the connection and the size of its channel count. -/
theorem Ended.congr {req : GenerationRequest α} {client client' : Client} {view : View}
    (hended : Ended req client view)
    (hample : client'.Ample req.maxNewTokens → client.Ample req.maxNewTokens)
    (hdone : client.responseDone = true → client'.responseDone = true) : Ended req client' view where
  wellFormed := hended.wellFormed
  length_le hroom := hended.length_le (hample hroom)
  delivered hroom := hended.delivered (hample hroom)
  cancelled hroom := hended.cancelled (hample hroom)
  terminal hroom := (hended.terminal (hample hroom)).imp_left hdone

/-- Nothing that was sent to an ample channel was too much for it. -/
theorem bounds_of_ample {req : GenerationRequest α} {client : Client} {view : View}
    (hstands : Unanswered req view ∨ Ended req client view)
    (hample : client.Ample req.maxNewTokens) :
    view.outgoing.length ≤ req.maxNewTokens + 1 ∧
      (∀ update ∈ view.updates, update.delivered = true) ∧ view.cancelled = 0 := by
  rcases hstands with hunanswered | hended
  · have hlength := hunanswered.length_le hample.limit_pos
    exact ⟨Nat.le_succ_of_le hlength, hunanswered.delivered, hunanswered.cancelled⟩
  · exact ⟨hended.length_le hample, hended.delivered hample, hended.cancelled hample⟩

namespace Sequence.Going

variable {req : GenerationRequest α} {seq : Sequence α} {view : View}

/-- A sequence that goes on is owed its terminal item. -/
theorem unanswered (hgoing : seq.Going req view) : Unanswered req view where
  tokens := ⟨_, hgoing.outgoing_eq⟩
  length_le hpos := (hgoing.length_lt hpos).le
  delivered update hupdate := (hgoing.live.isOpen update hupdate).1
  cancelled := hgoing.live.cancelled

variable [Floats α] {row : LogitRow α} {tokens : List Token} {stepped : Sequence α}

/-- The next update finds room. -/
theorem room (hgoing : seq.Going req view) (hadvance : seq.advance row = some (tokens, stepped))
    {client : Client} (hsent : client.sent = view.outgoing)
    (hample : client.Ample req.maxNewTokens) :
    client.tryReserveMany (updateItems tokens stepped.finishReason).length = true := by
  apply hample.tryReserveMany
  rw [hsent]
  exact hgoing.length_append_le hadvance hample.limit_pos

/-- A delivered update that finishes the sequence ends its request. -/
theorem ended (hgoing : seq.Going req view) (hadvance : seq.advance row = some (tokens, stepped))
    (hdone : stepped.isDone = true) (client : Client) (reader : ClientId) :
    Ended req client ⟨view.outgoing ++ updateItems tokens stepped.finishReason,
      view.updates ++ [Update.mk reader tokens stepped.finishReason true], view.cancelled⟩ := by
  obtain ⟨reason, houtgoing⟩ := hgoing.exists_finish hadvance hdone
  constructor
  case wellFormed =>
    dsimp only
    rw [houtgoing]
    exact wellFormed_concat _ rfl
  case length_le =>
    intro hample
    dsimp only
    rw [List.length_append]
    exact hgoing.length_append_le hadvance hample.limit_pos
  case delivered =>
    intro _ update hupdate
    rcases List.mem_append.mp hupdate with hearlier | hlast
    · exact hgoing.unanswered.delivered update hearlier
    · exact List.mem_singleton.mp hlast ▸ rfl
  case cancelled => exact fun _ ↦ hgoing.live.cancelled
  case terminal =>
    intro _
    right
    dsimp only
    rw [houtgoing]
    exact countP_isTerminal_concat _ rfl

end Sequence.Going

end Terminal

end HotBatch
