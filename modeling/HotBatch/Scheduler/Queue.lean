import HotBatch.Core.Sequence
import Mathlib.Data.List.Perm.Subperm

/-!
# The request queue

A bounded queue in which a higher priority goes first and equal priorities keep their order. Both
`submit` and `try_pop` first throw out the requests whose receivers are gone. The queue is guarded
by a mutex, so an operation is one step; `isOpen` is what it reads of the receivers while it holds
the lock.
-/

namespace HotBatch

structure RequestQueue (α : Type) where
  requests : List (GenerationRequest α)
  maxDepth : ℕ
  closed : Bool

namespace RequestQueue

variable {α : Type}

def new (maxDepth : ℕ) : RequestQueue α where
  requests := []
  maxDepth := maxDepth
  closed := false

/-- `retain(|pending| !pending.sender.is_closed())`. -/
def retainOpen (isOpen : ClientId → Bool) (queue : RequestQueue α) : RequestQueue α :=
  { queue with requests := queue.requests.filter fun pending ↦ isOpen pending.client }

/-- The requests that `retainOpen` throws out, each of which is counted. -/
def pruned (isOpen : ClientId → Bool) (queue : RequestQueue α) : List (GenerationRequest α) :=
  queue.requests.filter fun pending ↦ !isOpen pending.client

/-- `push_back`. -/
def push (req : GenerationRequest α) (queue : RequestQueue α) : RequestQueue α :=
  { queue with requests := queue.requests ++ [req] }

/-- `submit`: whether the request was accepted. -/
def submit (isOpen : ClientId → Bool) (req : GenerationRequest α) (queue : RequestQueue α) :
    Bool × RequestQueue α :=
  let queue := queue.retainOpen isOpen
  if queue.closed || decide (queue.maxDepth ≤ queue.requests.length) then (false, queue)
  else (true, queue.push req)

/-- The loop of `try_pop`, with the index and the priority of the best request so far. -/
def bestFrom (best : ℕ × UInt8) (index : ℕ) : List (GenerationRequest α) → ℕ
  | [] => best.1
  | req :: rest =>
      bestFrom (if best.2 < req.priority then (index, req.priority) else best) (index + 1) rest

/-- `best_index`. -/
def bestIndex (requests : List (GenerationRequest α)) : ℕ :=
  bestFrom (0, (requests.head?.map GenerationRequest.priority).getD 0) 1 requests.tail

def tryPop (isOpen : ClientId → Bool) (queue : RequestQueue α) :
    Option (GenerationRequest α) × RequestQueue α :=
  let queue := queue.retainOpen isOpen
  if queue.requests.isEmpty then (none, queue)
  else
    let index := bestIndex queue.requests
    (queue.requests[index]?, { queue with requests := queue.requests.eraseIdx index })

def closeAndDrain (queue : RequestQueue α) : List (GenerationRequest α) × RequestQueue α :=
  (queue.requests, { queue with requests := [], closed := true })

/-- Pruning only splits the queue. -/
theorem retainOpen_append_pruned_perm (isOpen : ClientId → Bool) (queue : RequestQueue α) :
    ((queue.retainOpen isOpen).requests ++ queue.pruned isOpen).Perm queue.requests :=
  List.filter_append_perm _ _

theorem retainOpen_subset (isOpen : ClientId → Bool) (queue : RequestQueue α) :
    (queue.retainOpen isOpen).requests ⊆ queue.requests := fun _ hreq ↦ (List.mem_filter.mp hreq).1

theorem bestFrom_lt (requests : List (GenerationRequest α)) (best : ℕ × UInt8) (index bound : ℕ)
    (hbest : best.1 < bound) (hindex : index + requests.length ≤ bound) :
    bestFrom best index requests < bound := by
  induction requests generalizing best index with
  | nil => exact hbest
  | cons req rest ih =>
      rw [List.length_cons] at hindex
      rw [bestFrom]
      apply ih
      · split
        · exact Nat.lt_of_lt_of_le (by omega) hindex
        · exact hbest
      · omega

theorem bestIndex_lt {requests : List (GenerationRequest α)} (hne : requests ≠ []) :
    bestIndex requests < requests.length := by
  obtain ⟨req, rest, rfl⟩ := List.exists_cons_of_ne_nil hne
  apply bestFrom_lt
  · exact Nat.succ_pos _
  · exact (Nat.add_comm _ _).le

/-- Everything `submit` does to the queue. -/
theorem submit_cases (isOpen : ClientId → Bool) (req : GenerationRequest α)
    (queue : RequestQueue α) :
    queue.submit isOpen req = (false, queue.retainOpen isOpen) ∧
        (queue.closed = true ∨ queue.maxDepth ≤ (queue.retainOpen isOpen).requests.length) ∨
      queue.submit isOpen req = (true, (queue.retainOpen isOpen).push req) ∧
        queue.closed = false ∧ (queue.retainOpen isOpen).requests.length < queue.maxDepth := by
  unfold submit
  dsimp only
  split
  · rename_i hrefused
    refine Or.inl ⟨rfl, ?_⟩
    rwa [Bool.or_eq_true, decide_eq_true_eq] at hrefused
  · rename_i haccepted
    refine Or.inr ⟨rfl, ?_⟩
    rwa [Bool.not_eq_true, Bool.or_eq_false_iff, decide_eq_false_iff_not, Nat.not_le] at haccepted

/-- Everything `try_pop` does to the queue: it finds no open request, or it takes one. -/
theorem tryPop_cases (isOpen : ClientId → Bool) (queue : RequestQueue α) :
    queue.tryPop isOpen = (none, queue.retainOpen isOpen) ∧
        (queue.retainOpen isOpen).requests = [] ∨
      ∃ req rest, queue.tryPop isOpen =
          (some req, { queue.retainOpen isOpen with requests := rest }) ∧
        (req :: rest).Perm (queue.retainOpen isOpen).requests := by
  by_cases hempty : (queue.retainOpen isOpen).requests = []
  · refine Or.inl ⟨?_, hempty⟩
    unfold tryPop
    simp [hempty]
  · refine Or.inr ?_
    have hlt := bestIndex_lt hempty
    refine ⟨(queue.retainOpen isOpen).requests[bestIndex (queue.retainOpen isOpen).requests], _,
      ?_, List.getElem_cons_eraseIdx_perm hlt⟩
    unfold tryPop
    have hnotEmpty : (queue.retainOpen isOpen).requests.isEmpty = false := by simpa using hempty
    simp only [hnotEmpty, Bool.false_eq_true, if_false, List.getElem?_eq_getElem hlt]

end RequestQueue

end HotBatch
