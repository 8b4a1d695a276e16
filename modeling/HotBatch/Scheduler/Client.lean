import HotBatch.Core.Sequence
import Mathlib.Logic.Function.Basic

/-!
# Clients

What a request shares with the connection that waits for it: a bounded channel of stream items and
the `response_done` token. The engine holds the sending side; the connection takes items out, may
drop the receiver and may cancel the token, at any time. `sent` keeps every item ever put into the
channel, so that the items waiting in it are those after the first `received`.
-/

namespace HotBatch

structure Client where
  capacity : ℕ
  sent : List StreamItem
  received : ℕ
  receiverOpen : Bool
  responseDone : Bool
  deriving DecidableEq

/-- What the connection may do. -/
inductive ClientAction where
  | recv
  | dropReceiver
  | cancelDone
  deriving DecidableEq

/-- The messages of `try_send_tokens`: the tokens, then the terminal event. -/
def updateItems (tokens : List Token) (finishReason : Option FinishReason) : List StreamItem :=
  tokens.map .token ++ (finishReason.map .finished).toList

namespace Client

/-- A fresh channel. -/
def new (capacity : ℕ) : Client where
  capacity := capacity
  sent := []
  received := 0
  receiverOpen := true
  responseDone := false

/-- `sender.is_closed()`. -/
def isClosed (client : Client) : Bool := !client.receiverOpen

/-- Free places of the channel. -/
def room (client : Client) : ℕ := client.capacity - (client.sent.length - client.received)

/-- `try_reserve_many` for so many messages succeeds; nothing is reserved for no message. -/
def tryReserveMany (client : Client) (count : ℕ) : Bool :=
  count == 0 || (client.receiverOpen && decide (count ≤ client.room))

/-- A message goes into its reserved place, whether or not somebody will read it. -/
def send (item : StreamItem) (client : Client) : Client :=
  { client with sent := client.sent ++ [item] }

/-- `try_send`: the message is lost when the receiver is gone or the channel is full. -/
def trySend (item : StreamItem) (client : Client) : Client :=
  if client.tryReserveMany 1 then client.send item else client

/-- `try_send_error`. -/
def trySendError (message : String) (client : Client) : Client := client.trySend (.error message)

/-- One action of the connection; it can only take out what has been put in. -/
def act (client : Client) : ClientAction → Option Client
  | .recv =>
      if client.receiverOpen && decide (client.received < client.sent.length) then
        some { client with received := client.received + 1 }
      else none
  | .dropReceiver => some { client with receiverOpen := false }
  | .cancelDone => some { client with responseDone := true }

@[simp]
theorem send_receiverOpen (item : StreamItem) (client : Client) :
    (client.send item).receiverOpen = client.receiverOpen := rfl

@[simp]
theorem send_responseDone (item : StreamItem) (client : Client) :
    (client.send item).responseDone = client.responseDone := rfl

@[simp]
theorem trySend_receiverOpen (item : StreamItem) (client : Client) :
    (client.trySend item).receiverOpen = client.receiverOpen := by
  unfold trySend
  split <;> rfl

@[simp]
theorem trySend_responseDone (item : StreamItem) (client : Client) :
    (client.trySend item).responseDone = client.responseDone := by
  unfold trySend
  split <;> rfl

/-- An update finds its places when it is empty, or somebody reads it and there is room. -/
theorem tryReserveMany_length {client : Client} {items : List StreamItem} :
    client.tryReserveMany items.length = true ↔
      (items ≠ [] → client.receiverOpen = true ∧ items.length ≤ client.room) := by
  unfold tryReserveMany
  rw [Bool.or_eq_true, beq_iff_eq, List.length_eq_zero_iff, Bool.and_eq_true, decide_eq_true_eq]
  exact or_iff_not_imp_left

/-- A failed attempt leaves no trace. -/
theorem trySend_sent (item : StreamItem) (client : Client) :
    (client.trySend item).sent = client.sent ∨
      (client.trySend item).sent = client.sent ++ [item] := by
  unfold trySend
  split
  · exact Or.inr rfl
  · exact Or.inl rfl

/-- Taking an item out moves past it. -/
theorem act_recv {client client' : Client} (hact : client.act .recv = some client') :
    client' = { client with received := client.received + 1 } ∧
      client.received < client.sent.length := by
  rw [act] at hact
  split at hact
  · rename_i hwaiting
    rw [Bool.and_eq_true, decide_eq_true_eq] at hwaiting
    exact ⟨(Option.some.inj hact).symm, hwaiting.2⟩
  · cases hact

/-- The connection never adds to what was sent. -/
theorem act_sent {client client' : Client} {action : ClientAction}
    (hact : client.act action = some client') : client'.sent = client.sent := by
  cases action with
  | recv =>
      rw [act] at hact
      split at hact
      · exact Option.some.inj hact ▸ rfl
      · cases hact
  | dropReceiver => exact Option.some.inj hact ▸ rfl
  | cancelDone => exact Option.some.inj hact ▸ rfl

/-- The connection never takes a signal back. -/
theorem act_signals {client client' : Client} {action : ClientAction}
    (hact : client.act action = some client') :
    (client.receiverOpen = false → client'.receiverOpen = false) ∧
      (client.responseDone = true → client'.responseDone = true) := by
  cases action with
  | recv =>
      rw [(act_recv hact).1]
      exact ⟨id, id⟩
  | dropReceiver =>
      obtain rfl := Option.some.inj hact
      exact ⟨fun _ ↦ rfl, id⟩
  | cancelDone =>
      obtain rfl := Option.some.inj hact
      exact ⟨id, fun _ ↦ rfl⟩

/-- Nor does the connection change the size of the channel. -/
theorem act_capacity {client client' : Client} {action : ClientAction}
    (hact : client.act action = some client') : client'.capacity = client.capacity := by
  cases action with
  | recv => rw [(act_recv hact).1]
  | dropReceiver => exact Option.some.inj hact ▸ rfl
  | cancelDone => exact Option.some.inj hact ▸ rfl

/-- An attempt to send an error leaves that one at most. -/
theorem error_of_trySendError {client : Client} {message other : String}
    (hmem : .error other ∈ (client.trySendError message).sent) :
    .error other ∈ client.sent ∨ other = message := by
  rcases client.trySend_sent (.error message) with hsame | hmore
  · exact Or.inl (hsame ▸ hmem)
  · have hsent : (client.trySendError message).sent = client.sent ++ [.error message] := hmore
    rw [hsent] at hmem
    exact (List.mem_append.mp hmem).imp_right fun hlast ↦
      StreamItem.error.inj (List.mem_singleton.mp hlast)

/-- Sending anything but an error adds no error. -/
theorem error_of_send {client : Client} {item : StreamItem} {message : String}
    (hitem : item ≠ .error message) (hmem : .error message ∈ (client.send item).sent) :
    .error message ∈ client.sent := by
  rcases List.mem_append.mp hmem with hold | hlast
  · exact hold
  · exact absurd (List.mem_singleton.mp hlast).symm hitem

end Client

/-- Tokens and the terminal event of an update are no errors. -/
theorem error_notMem_updateItems (tokens : List Token) (finishReason : Option FinishReason)
    (message : String) : .error message ∉ updateItems tokens finishReason := by
  intro hmem
  rcases List.mem_append.mp hmem with htoken | hreason
  · obtain ⟨_, -, heq⟩ := List.mem_map.mp htoken
    cases heq
  · obtain ⟨_, -, heq⟩ := Option.mem_map.mp (Option.mem_toList.mp hreason)
    cases heq

end HotBatch
