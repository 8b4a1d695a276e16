import HotBatch.Foundation.StableSort
import HotBatch.Scheduler.Protocol
import Mathlib.Algebra.Order.Group.Multiset
import Mathlib.Tactic.Abel

/-!
# Histories of the request queue

The queue is driven here on its own, by any interleaving of submissions, pops, a closing drain and
receivers that go away. With it go the counters it writes and a log of what was accepted, popped,
pruned and drained, which nothing reads. The order of the queue is that of the submissions, and a
pop takes the first of the highest priority; so equal priorities never overtake each other, and
popping until nothing is left sorts the queue stably.
-/

namespace HotBatch

open StableSort

/-- A queue with its receivers and counters, and the log of its requests. -/
structure SharedQueue (α : Type) where
  queue : RequestQueue α
  isClosed : ClientId → Bool
  metrics : SchedulerMetrics
  accepted : List (GenerationRequest α)
  popped : List (GenerationRequest α)
  pruned : List (GenerationRequest α)
  drained : List (GenerationRequest α)

/-- The priority as a number. -/
def GenerationRequest.level {α : Type} (req : GenerationRequest α) : ℕ := req.priority.toNat

namespace RequestQueue

variable {α : Type}

/-- Where the best request stands: what is in front of it has a lower priority, what is behind it
no higher one. -/
structure FirstBest (front : List (GenerationRequest α)) (best : GenerationRequest α)
    (back : List (GenerationRequest α)) : Prop where
  front_lt : ∀ req ∈ front, req.level < best.level
  back_le : ∀ req ∈ back, req.level ≤ best.level

theorem bestFrom_spec (rest front middle : List (GenerationRequest α)) (best : GenerationRequest α)
    (hbest : FirstBest front best middle) :
    ∃ front' best' back, front ++ best :: (middle ++ rest) = front' ++ best' :: back ∧
      bestFrom (front.length, best.priority) (front.length + (1 + middle.length)) rest =
        front'.length ∧ FirstBest front' best' back := by
  induction rest generalizing front middle best with
  | nil => exact ⟨front, best, middle, by rw [List.append_nil], rfl, hbest⟩
  | cons req rest ih =>
      rw [bestFrom]
      split
      · -- a new best: all that was seen so far is in front of it
        rename_i hpriority
        have hhigher : best.level < req.level := UInt8.lt_iff_toNat_lt.mp hpriority
        have hfront : FirstBest (front ++ best :: middle) req [] := by
          constructor
          · intro other hother
            rcases List.mem_append.mp hother with hmem | hmem
            · exact (hbest.front_lt other hmem).trans hhigher
            · cases hmem with
              | head => exact hhigher
              | tail _ hmiddle => exact (hbest.back_le other hmiddle).trans_lt hhigher
          · intro other hother
            cases hother
        have hlength : (front ++ best :: middle).length = front.length + (1 + middle.length) := by
          rw [List.length_append, List.length_cons, Nat.add_comm 1]
        have hstep := ih (front ++ best :: middle) [] req hfront
        rw [hlength, List.append_assoc] at hstep
        exact hstep
      · rename_i hpriority
        have hlower : req.level ≤ best.level := UInt8.le_iff_toNat_le.mp (UInt8.not_lt.mp hpriority)
        have hmiddle : FirstBest front best (middle ++ [req]) := by
          refine ⟨hbest.front_lt, fun other hother ↦ ?_⟩
          rcases List.mem_append.mp hother with hmem | hmem
          · exact hbest.back_le other hmem
          · exact List.mem_singleton.mp hmem ▸ hlower
        have hstep := ih front (middle ++ [req]) best hmiddle
        rw [List.length_append, List.append_assoc] at hstep
        exact hstep

/-- `best_index` is the place of the first request of the highest priority. -/
theorem bestIndex_spec {requests : List (GenerationRequest α)} (hne : requests ≠ []) :
    ∃ front best back, requests = front ++ best :: back ∧ bestIndex requests = front.length ∧
      FirstBest front best back := by
  obtain ⟨req, rest, rfl⟩ := List.exists_cons_of_ne_nil hne
  have hfirst : FirstBest [] req [] :=
    ⟨fun _ hmem ↦ absurd hmem List.not_mem_nil, fun _ hmem ↦ absurd hmem List.not_mem_nil⟩
  exact bestFrom_spec rest [] [] req hfirst

/-- `try_pop` takes the first open request of the highest priority, if there is one. -/
theorem tryPop_spec (isOpen : ClientId → Bool) (queue : RequestQueue α) :
    queue.tryPop isOpen = (none, queue.retainOpen isOpen) ∧
        (queue.retainOpen isOpen).requests = [] ∨
      ∃ front best back, (queue.retainOpen isOpen).requests = front ++ best :: back ∧
        FirstBest front best back ∧
        queue.tryPop isOpen =
          (some best, { queue.retainOpen isOpen with requests := front ++ back }) := by
  by_cases hempty : (queue.retainOpen isOpen).requests = []
  · rcases tryPop_cases isOpen queue with hnone | ⟨req, rest, -, hperm⟩
    · exact Or.inl hnone
    · exact absurd (hempty ▸ hperm).eq_nil (List.cons_ne_nil req rest)
  · obtain ⟨front, best, back, hsplit, hindex, hbest⟩ := bestIndex_spec hempty
    refine Or.inr ⟨front, best, back, hsplit, hbest, ?_⟩
    have htaken : (front ++ best :: back)[front.length]? = some best := by
      rw [List.getElem?_append_right (le_refl _), Nat.sub_self, List.getElem?_cons_zero]
    have hrest : (front ++ best :: back).eraseIdx front.length = front ++ back := by
      rw [List.eraseIdx_append_of_length_le (le_refl _), Nat.sub_self, List.eraseIdx_cons_zero]
    have hnotEmpty : (queue.retainOpen isOpen).requests.isEmpty = false := by
      rwa [List.isEmpty_eq_false_iff]
    unfold tryPop
    dsimp only
    rw [hnotEmpty, hindex, hsplit, htaken, hrest]
    rfl

end RequestQueue

namespace SharedQueue

variable {α : Type}

/-- `RequestQueue::new` with counters and receivers of its own. -/
def new (maxDepth : ℕ) : SharedQueue α where
  queue := .new maxDepth
  isClosed := fun _ ↦ false
  metrics := .new
  accepted := []
  popped := []
  pruned := []
  drained := []

/-- What a scan of the queue reads of the receivers; `late` as in `Scheduler.Action`. -/
def isOpen (shared : SharedQueue α) (late : List ClientId) (client : ClientId) : Bool :=
  !shared.isClosed client || late.contains client

/-- The queued requests whose receivers the scan finds open. -/
def openRequests (shared : SharedQueue α) (late : List ClientId) : List (GenerationRequest α) :=
  (shared.queue.retainOpen (shared.isOpen late)).requests

/-- Counting what was pruned, and the gauge. -/
def prune (late : List ClientId) (queue : RequestQueue α) (shared : SharedQueue α) :
    SharedQueue α :=
  let pruned := shared.queue.pruned (shared.isOpen late)
  { shared with
    queue := queue
    metrics := (shared.metrics.recordCancelled (pruned.map GenerationRequest.client)).setQueueDepth
      queue.requests.length
    pruned := shared.pruned ++ pruned }

def submit (req : GenerationRequest α) (late : List ClientId) (shared : SharedQueue α) :
    Bool × SharedQueue α :=
  match shared.queue.submit (shared.isOpen late) req with
  | (false, queue) => (false, shared.prune late queue)
  | (true, queue) =>
      (true, { shared.prune late queue with accepted := shared.accepted ++ [req] })

def tryPop (late : List ClientId) (shared : SharedQueue α) :
    Option (GenerationRequest α) × SharedQueue α :=
  match shared.queue.tryPop (shared.isOpen late) with
  | (none, queue) => (none, shared.prune late queue)
  | (some req, queue) => (some req, { shared.prune late queue with popped := shared.popped ++ [req] })

def closeAndDrain (shared : SharedQueue α) : List (GenerationRequest α) × SharedQueue α :=
  let (requests, queue) := shared.queue.closeAndDrain
  (requests, { shared with
    queue := queue
    metrics := shared.metrics.setQueueDepth 0
    drained := shared.drained ++ requests })

def closeReceiver (client : ClientId) (shared : SharedQueue α) : SharedQueue α :=
  { shared with isClosed := Function.update shared.isClosed client true }

inductive Call (α : Type) where
  | submit (req : GenerationRequest α) (late : List ClientId)
  | tryPop (late : List ClientId)
  | closeAndDrain
  | closeReceiver (client : ClientId)

def perform (shared : SharedQueue α) : Call α → SharedQueue α
  | .submit req late => (shared.submit req late).2
  | .tryPop late => (shared.tryPop late).2
  | .closeAndDrain => shared.closeAndDrain.2
  | .closeReceiver client => shared.closeReceiver client

def performAll (calls : List (Call α)) (shared : SharedQueue α) : SharedQueue α :=
  calls.foldl perform shared

/-! ## One call -/

theorem openRequests_sublist (shared : SharedQueue α) (late : List ClientId) :
    (shared.openRequests late).Sublist shared.queue.requests := List.filter_sublist

theorem mem_openRequests {shared : SharedQueue α} {late : List ClientId}
    {req : GenerationRequest α} : req ∈ shared.openRequests late ↔
      req ∈ shared.queue.requests ∧ shared.isOpen late req.client = true := List.mem_filter

/-- Everything a submission can do. -/
theorem submit_cases (req : GenerationRequest α) (late : List ClientId) (shared : SharedQueue α) :
    shared.submit req late =
        (false, shared.prune late (shared.queue.retainOpen (shared.isOpen late))) ∧
        (shared.queue.closed = true ∨
          shared.queue.maxDepth ≤ (shared.openRequests late).length) ∨
      shared.submit req late =
        (true, { shared.prune late ((shared.queue.retainOpen (shared.isOpen late)).push req) with
          accepted := shared.accepted ++ [req] }) ∧
        shared.queue.closed = false ∧
          (shared.openRequests late).length < shared.queue.maxDepth := by
  rcases RequestQueue.submit_cases (shared.isOpen late) req shared.queue with
    ⟨hsubmit, hrefused⟩ | ⟨hsubmit, haccepted⟩
  · refine Or.inl ⟨?_, hrefused⟩
    rw [submit, hsubmit]
  · refine Or.inr ⟨?_, haccepted⟩
    rw [submit, hsubmit]

/-- Everything a pop can do. -/
theorem tryPop_cases (late : List ClientId) (shared : SharedQueue α) :
    shared.tryPop late =
        (none, shared.prune late (shared.queue.retainOpen (shared.isOpen late))) ∧
        shared.openRequests late = [] ∨
      ∃ front best back, shared.openRequests late = front ++ best :: back ∧
        RequestQueue.FirstBest front best back ∧
        shared.tryPop late = (some best,
          { shared.prune late
              { shared.queue.retainOpen (shared.isOpen late) with requests := front ++ back } with
            popped := shared.popped ++ [best] }) := by
  rcases RequestQueue.tryPop_spec (shared.isOpen late) shared.queue with
    ⟨hpop, hempty⟩ | ⟨front, best, back, hsplit, hbest, hpop⟩
  · refine Or.inl ⟨?_, hempty⟩
    rw [tryPop, hpop]
  · refine Or.inr ⟨front, best, back, hsplit, hbest, ?_⟩
    rw [tryPop, hpop]

/-! ## The invariant of a history -/

/-- What a history keeps of a queue that was made for `maxDepth` requests. -/
structure Orderly (maxDepth : ℕ) (shared : SharedQueue α) : Prop where
  maxDepth_eq : shared.queue.maxDepth = maxDepth
  bounded : shared.queue.requests.length ≤ maxDepth
  gauge : shared.metrics.queueDepth = shared.queue.requests.length
  counted : shared.metrics.cancelledSequences = shared.pruned.map GenerationRequest.client
  /-- The queue is in the order of the submissions. -/
  submitted : shared.queue.requests.Sublist shared.accepted
  /-- Within one priority the queue continues what was popped. -/
  fifo : ∀ level, (ofKey GenerationRequest.level level (shared.popped ++ shared.queue.requests)).Sublist
    shared.accepted
  /-- Every accepted request is in one place, and only once. -/
  placed : (shared.accepted : Multiset (GenerationRequest α)) =
    shared.queue.requests + shared.popped + shared.pruned + shared.drained

variable {maxDepth : ℕ} {shared : SharedQueue α}

theorem orderly_new (maxDepth : ℕ) : Orderly maxDepth (new maxDepth : SharedQueue α) where
  maxDepth_eq := rfl
  bounded := Nat.zero_le _
  gauge := rfl
  counted := rfl
  submitted := .refl _
  fifo _ := .refl _
  placed := rfl

theorem Orderly.prune (horderly : Orderly maxDepth shared) (late : List ClientId) :
    Orderly maxDepth (shared.prune late (shared.queue.retainOpen (shared.isOpen late))) where
  maxDepth_eq := horderly.maxDepth_eq
  bounded := (shared.openRequests_sublist late).length_le.trans horderly.bounded
  gauge := rfl
  counted := by
    calc shared.metrics.cancelledSequences ++ _
      _ = shared.pruned.map GenerationRequest.client ++ _ := by rw [horderly.counted]
      _ = _ := List.map_append.symm
  submitted := (shared.openRequests_sublist late).trans horderly.submitted
  fifo level :=
    (((List.Sublist.refl shared.popped).append (shared.openRequests_sublist late)).filter _).trans
      (horderly.fifo level)
  placed := by
    have hsplit : (shared.queue.requests : Multiset (GenerationRequest α)) =
        shared.openRequests late + shared.queue.pruned (shared.isOpen late) :=
      (Multiset.coe_eq_coe.mpr (shared.queue.retainOpen_append_pruned_perm _)).symm
    calc (shared.accepted : Multiset (GenerationRequest α))
      _ = shared.openRequests late + shared.queue.pruned (shared.isOpen late) + shared.popped +
          shared.pruned + shared.drained := by rw [horderly.placed, hsplit]
      _ = shared.openRequests late + shared.popped +
          (shared.pruned + shared.queue.pruned (shared.isOpen late)) + shared.drained := by abel

/-- A request at the end of the queue. -/
theorem Orderly.push (horderly : Orderly maxDepth shared) (req : GenerationRequest α)
    (hroom : shared.queue.requests.length < maxDepth) :
    Orderly maxDepth { shared with
      queue := shared.queue.push req
      metrics := shared.metrics.setQueueDepth (shared.queue.push req).requests.length
      accepted := shared.accepted ++ [req] } where
  maxDepth_eq := horderly.maxDepth_eq
  bounded := by
    calc (shared.queue.requests ++ [req]).length
      _ = shared.queue.requests.length + 1 := List.length_append
      _ ≤ maxDepth := hroom
  gauge := rfl
  counted := horderly.counted
  submitted := horderly.submitted.append (.refl _)
  fifo level := by
    have hlast : (ofKey GenerationRequest.level level [req]).Sublist [req] := List.filter_sublist
    have hsplit : ofKey GenerationRequest.level level (shared.popped ++ (shared.queue.requests ++ [req])) =
        ofKey GenerationRequest.level level (shared.popped ++ shared.queue.requests) ++
          ofKey GenerationRequest.level level [req] := by
      rw [← List.append_assoc, ofKey_append]
    exact hsplit ▸ (horderly.fifo level).append hlast
  placed := by
    calc ((shared.accepted ++ [req] : List (GenerationRequest α)) : Multiset (GenerationRequest α))
      _ = shared.accepted + ([req] : List (GenerationRequest α)) := (Multiset.coe_add _ _).symm
      _ = (shared.queue.requests + ([req] : List (GenerationRequest α))) + shared.popped +
          shared.pruned + shared.drained := by rw [horderly.placed]; abel

/-- A pop goes on in the order of each priority: what stood in front had a lower one. -/
theorem ofKey_take_best {front back : List (GenerationRequest α)} {best : GenerationRequest α}
    (hbest : RequestQueue.FirstBest front best back) (level : ℕ) :
    ofKey GenerationRequest.level level (best :: (front ++ back)) =
      ofKey GenerationRequest.level level (front ++ best :: back) := by
  rw [ofKey_append]
  by_cases hlevel : best.level = level
  · have hnone : ofKey GenerationRequest.level best.level front = [] :=
      ofKey_eq_nil _ fun req hreq ↦ (hbest.front_lt req hreq).ne
    rw [← hlevel, ofKey_cons_self, ofKey_cons_self, ofKey_append, hnone]
    rfl
  · rw [ofKey_cons_of_ne _ hlevel, ofKey_cons_of_ne _ hlevel, ofKey_append]

theorem Orderly.take (horderly : Orderly maxDepth shared)
    {front back : List (GenerationRequest α)} {best : GenerationRequest α}
    (hsplit : shared.queue.requests = front ++ best :: back)
    (hbest : RequestQueue.FirstBest front best back) :
    Orderly maxDepth { shared with
      queue := { shared.queue with requests := front ++ back }
      metrics := shared.metrics.setQueueDepth (front ++ back).length
      popped := shared.popped ++ [best] } where
  maxDepth_eq := horderly.maxDepth_eq
  bounded := by
    have hsublist : (front ++ back).Sublist shared.queue.requests :=
      hsplit ▸ (List.Sublist.refl front).append (List.sublist_cons_self best back)
    exact hsublist.length_le.trans horderly.bounded
  gauge := rfl
  counted := horderly.counted
  submitted := by
    have hsublist : (front ++ back).Sublist shared.queue.requests :=
      hsplit ▸ (List.Sublist.refl front).append (List.sublist_cons_self best back)
    exact hsublist.trans horderly.submitted
  fifo level := by
    calc ofKey GenerationRequest.level level (shared.popped ++ [best] ++ (front ++ back))
      _ = ofKey GenerationRequest.level level (shared.popped ++ best :: (front ++ back)) := by
        rw [List.append_assoc]; rfl
      _ = ofKey GenerationRequest.level level (shared.popped ++ shared.queue.requests) := by
        rw [ofKey_append, ofKey_take_best hbest, ← ofKey_append, hsplit]
      _ |>.Sublist shared.accepted := horderly.fifo level
  placed := by
    have hqueue : (shared.queue.requests : Multiset (GenerationRequest α)) =
        (front ++ back : List (GenerationRequest α)) + ([best] : List (GenerationRequest α)) := by
      rw [hsplit, Multiset.coe_add, Multiset.coe_eq_coe]
      exact List.perm_middle.trans (List.perm_append_singleton best _).symm
    calc (shared.accepted : Multiset (GenerationRequest α))
      _ = (front ++ back : List (GenerationRequest α)) + ([best] : List (GenerationRequest α)) +
          shared.popped + shared.pruned + shared.drained := by rw [horderly.placed, hqueue]
      _ = (front ++ back : List (GenerationRequest α)) +
          (shared.popped + ([best] : List (GenerationRequest α))) + shared.pruned +
          shared.drained := by abel

theorem Orderly.drain (horderly : Orderly maxDepth shared) :
    Orderly maxDepth shared.closeAndDrain.2 where
  maxDepth_eq := horderly.maxDepth_eq
  bounded := Nat.zero_le _
  gauge := rfl
  counted := horderly.counted
  submitted := List.nil_sublist _
  fifo level := by
    have hsublist : (shared.popped ++ []).Sublist (shared.popped ++ shared.queue.requests) :=
      (List.Sublist.refl _).append (List.nil_sublist _)
    exact (hsublist.filter _).trans (horderly.fifo level)
  placed := by
    calc (shared.accepted : Multiset (GenerationRequest α))
      _ = shared.queue.requests + shared.popped + shared.pruned + shared.drained := horderly.placed
      _ = ([] : List (GenerationRequest α)) + shared.popped + shared.pruned +
          (shared.drained + shared.queue.requests) := by
        rw [Multiset.coe_nil]
        abel

theorem orderly_perform (horderly : Orderly maxDepth shared) (call : Call α) :
    Orderly maxDepth (shared.perform call) := by
  cases call with
  | submit req late =>
      rcases shared.submit_cases req late with ⟨hsubmit, -⟩ | ⟨hsubmit, -, hroom⟩
      · have hperform : shared.perform (.submit req late) = _ := congrArg Prod.snd hsubmit
        exact hperform ▸ horderly.prune late
      · have hperform : shared.perform (.submit req late) = _ := congrArg Prod.snd hsubmit
        exact hperform ▸ (horderly.prune late).push req (horderly.maxDepth_eq ▸ hroom)
  | tryPop late =>
      rcases shared.tryPop_cases late with ⟨hpop, -⟩ | ⟨front, best, back, hsplit, hbest, hpop⟩
      · have hperform : shared.perform (.tryPop late) = _ := congrArg Prod.snd hpop
        exact hperform ▸ horderly.prune late
      · have hperform : shared.perform (.tryPop late) = _ := congrArg Prod.snd hpop
        exact hperform ▸ (horderly.prune late).take hsplit hbest
  | closeAndDrain => exact horderly.drain
  | closeReceiver client =>
      exact ⟨horderly.maxDepth_eq, horderly.bounded, horderly.gauge, horderly.counted,
        horderly.submitted, horderly.fifo, horderly.placed⟩

theorem orderly_performAll (horderly : Orderly maxDepth shared) (calls : List (Call α)) :
    Orderly maxDepth (performAll calls shared) := by
  induction calls generalizing shared with
  | nil => exact horderly
  | cons call calls ih => exact ih (orderly_perform horderly call)

/-! ## Popping until nothing is left -/

/-- So many pops with nothing between them. -/
def popRepeatedly (count : ℕ) (shared : SharedQueue α) : SharedQueue α :=
  performAll (List.replicate count (.tryPop [])) shared

/-- What a pop leaves is open as long as no receiver goes away. -/
theorem openRequests_of_subset (shared after : SharedQueue α) (hclosed : after.isClosed = shared.isClosed)
    (hrest : after.queue.requests ⊆ shared.openRequests []) :
    after.openRequests [] = after.queue.requests := by
  apply List.filter_eq_self.mpr
  intro req hreq
  have hopen : shared.isOpen [] req.client = true := (mem_openRequests.mp (hrest hreq)).2
  calc after.isOpen [] req.client
    _ = shared.isOpen [] req.client := by rw [isOpen, isOpen, hclosed]
    _ = true := hopen

theorem perform_tryPop_cases (shared : SharedQueue α) :
    shared.openRequests [] = [] ∧ (shared.perform (.tryPop [])).popped = shared.popped ∧
        (shared.perform (.tryPop [])).queue.requests = [] ∨
      ∃ front best back, shared.openRequests [] = front ++ best :: back ∧
        RequestQueue.FirstBest front best back ∧
        (shared.perform (.tryPop [])).popped = shared.popped ++ [best] ∧
        (shared.perform (.tryPop [])).queue.requests = front ++ back ∧
        (shared.perform (.tryPop [])).openRequests [] = front ++ back := by
  rcases shared.tryPop_cases [] with ⟨hpop, hempty⟩ | ⟨front, best, back, hsplit, hbest, hpop⟩
  · have hperform : shared.perform (.tryPop []) = _ := congrArg Prod.snd hpop
    rw [hperform]
    exact Or.inl ⟨hempty, rfl, hempty⟩
  · have hperform : shared.perform (.tryPop []) = _ := congrArg Prod.snd hpop
    have hsublist : (front ++ back).Sublist (shared.openRequests []) :=
      hsplit ▸ (List.Sublist.refl front).append (List.sublist_cons_self best back)
    rw [hperform]
    refine Or.inr ⟨front, best, back, hsplit, hbest, rfl, rfl, ?_⟩
    exact openRequests_of_subset shared _ rfl hsublist.subset

theorem popRepeatedly_sorts {count : ℕ} (hcount : shared.queue.requests.length ≤ count) :
    (shared.popRepeatedly count).popped =
        shared.popped ++ sortDescending GenerationRequest.level (shared.openRequests []) ∧
      (shared.popRepeatedly count).queue.requests = [] := by
  induction count generalizing shared with
  | zero =>
      have hempty : shared.queue.requests = [] := List.eq_nil_of_length_eq_zero (by omega)
      have hopen : shared.openRequests [] = [] :=
        List.eq_nil_of_subset_nil (hempty ▸ (shared.openRequests_sublist []).subset)
      have hsorted : sortDescending GenerationRequest.level (shared.openRequests []) = [] := by
        rw [hopen]
        exact List.mergeSort_nil
      rw [hsorted, List.append_nil]
      exact ⟨rfl, hempty⟩
  | succ count ih =>
      let after := shared.perform (.tryPop [])
      change (after.popRepeatedly count).popped = _ ∧ (after.popRepeatedly count).queue.requests = _
      rcases shared.perform_tryPop_cases with
        ⟨hopen, hpopped, hempty⟩ | ⟨front, best, back, hsplit, hbest, hpopped, hrest, hopen⟩
      · have hnone : after.openRequests [] = [] :=
          List.eq_nil_of_subset_nil (hempty ▸ (after.openRequests_sublist []).subset)
        have hlength : after.queue.requests.length ≤ count := by
          rw [hempty]
          exact Nat.zero_le count
        have hsorted := ih hlength
        rw [hnone, hpopped] at hsorted
        rw [hopen]
        exact hsorted
      · have hlength : after.queue.requests.length ≤ count := by
          have hle := (shared.openRequests_sublist []).length_le
          rw [hsplit, List.length_append, List.length_cons] at hle
          rw [hrest, List.length_append]
          omega
        have hsorted := ih hlength
        rw [hpopped, hopen, List.append_assoc] at hsorted
        rw [hsplit, sortDescending_eq_cons _ hbest.front_lt hbest.back_le]
        exact hsorted

/-! ## The whole behaviour -/

/-- What a queue for `maxDepth` requests promises at any point of its history. -/
structure Promises (maxDepth : ℕ) (shared : SharedQueue α) : Prop where
  bounded : shared.queue.requests.length ≤ maxDepth
  submit_fails_iff : ∀ req late, (shared.submit req late).1 = false ↔
    shared.queue.closed = true ∨ maxDepth ≤ (shared.openRequests late).length
  submit_failed : ∀ req late, (shared.submit req late).1 = false →
    (shared.submit req late).2.queue.requests = shared.openRequests late
  submit_succeeded : ∀ req late, (shared.submit req late).1 = true →
    (shared.submit req late).2.queue.requests = shared.openRequests late ++ [req]
  tryPop_none_iff : ∀ late, (shared.tryPop late).1 = none ↔
    ∀ req ∈ shared.queue.requests, shared.isOpen late req.client = false
  tryPop_takes : ∀ late best, (shared.tryPop late).1 = some best →
    ∃ front back, shared.openRequests late = front ++ best :: back ∧
      RequestQueue.FirstBest front best back ∧
      (shared.tryPop late).2.queue.requests = front ++ back
  submitted : shared.queue.requests.Sublist shared.accepted
  fifo : ∀ level, (ofKey GenerationRequest.level level (shared.popped ++ shared.queue.requests)).Sublist
    shared.accepted
  sorts : ∀ count, shared.queue.requests.length ≤ count →
    (shared.popRepeatedly count).popped =
        shared.popped ++ sortDescending GenerationRequest.level (shared.openRequests []) ∧
      (shared.popRepeatedly count).queue.requests = []
  gauge : shared.metrics.queueDepth = shared.queue.requests.length
  counted : shared.metrics.cancelledSequences = shared.pruned.map GenerationRequest.client
  placed : (shared.accepted : Multiset (GenerationRequest α)) =
    shared.queue.requests + shared.popped + shared.pruned + shared.drained

theorem Orderly.promises (horderly : Orderly maxDepth shared) : Promises maxDepth shared where
  bounded := horderly.bounded
  submit_fails_iff req late := by
    rw [← horderly.maxDepth_eq]
    rcases shared.submit_cases req late with ⟨hsubmit, hrefused⟩ | ⟨hsubmit, hopen, hroom⟩
    · rw [hsubmit]
      exact ⟨fun _ ↦ hrefused, fun _ ↦ rfl⟩
    · rw [hsubmit, hopen]
      constructor
      · intro h
        cases h
      · rintro (h | hfull)
        · cases h
        · exact absurd hfull hroom.not_ge
  submit_failed req late hfailed := by
    rcases shared.submit_cases req late with ⟨hsubmit, -⟩ | ⟨hsubmit, -⟩
    · rw [hsubmit]
      rfl
    · rw [hsubmit] at hfailed
      cases hfailed
  submit_succeeded req late hsucceeded := by
    rcases shared.submit_cases req late with ⟨hsubmit, -⟩ | ⟨hsubmit, -⟩
    · rw [hsubmit] at hsucceeded
      cases hsucceeded
    · rw [hsubmit]
      rfl
  tryPop_none_iff late := by
    have hempty : shared.openRequests late = [] ↔
        ∀ req ∈ shared.queue.requests, shared.isOpen late req.client = false := by
      unfold openRequests RequestQueue.retainOpen
      rw [List.filter_eq_nil_iff]
      apply forall₂_congr
      intro req _
      rw [Bool.not_eq_true]
    rw [← hempty]
    rcases shared.tryPop_cases late with ⟨hpop, hnone⟩ | ⟨front, best, back, hsplit, -, hpop⟩
    · rw [hpop]
      exact ⟨fun _ ↦ hnone, fun _ ↦ rfl⟩
    · rw [hpop, hsplit]
      constructor
      · intro h
        cases h
      · intro h
        exact absurd h (List.append_ne_nil_of_right_ne_nil _ (List.cons_ne_nil _ _))
  tryPop_takes late best hbest := by
    rcases shared.tryPop_cases late with ⟨hpop, -⟩ | ⟨front, first, back, hsplit, hfirst, hpop⟩
    · rw [hpop] at hbest
      cases hbest
    · rw [hpop] at hbest
      obtain rfl := Option.some.inj hbest
      refine ⟨front, back, hsplit, hfirst, ?_⟩
      rw [hpop]
      rfl
  submitted := horderly.submitted
  fifo := horderly.fifo
  sorts _ hcount := popRepeatedly_sorts hcount
  gauge := horderly.gauge
  counted := horderly.counted
  placed := horderly.placed

/-! ## The queue of a scheduler -/

open Scheduler

section Scheduler

/-- The queue of a scheduler, its gauge and the receivers are those of the shared queue. -/
structure Mirrors (shared : SharedQueue α) (s : State α) : Prop where
  queue_eq : shared.queue = s.queue
  gauge_eq : shared.metrics.queueDepth = s.metrics.queueDepth
  isClosed_eq : ∀ client, shared.isClosed client = (s.clients client).isClosed

variable {s s' : State α}

/-- The receivers of both are read alike. -/
theorem Mirrors.isOpen_eq (hmirrors : Mirrors shared s) (late : List ClientId) :
    shared.isOpen late = s.isOpen late := by
  funext client
  rw [isOpen, State.isOpen, hmirrors.isClosed_eq]

/-- A step that leaves the queue and the signals alone. -/
theorem Mirrors.frame (hmirrors : Mirrors shared s) (hframe : Frame s s') : Mirrors shared s' where
  queue_eq := hmirrors.queue_eq.trans hframe.queue_eq.symm
  gauge_eq := hmirrors.gauge_eq.trans hframe.gauge_eq.symm
  isClosed_eq client := by
    rw [hmirrors.isClosed_eq client, Client.isClosed, Client.isClosed, (hframe.signals client).1]

theorem Mirrors.perform_tryPop (hmirrors : Mirrors shared s) (late : List ClientId) :
    Mirrors (shared.perform (.tryPop late)) (Scheduler.tryPop late s) := by
  have hpop : shared.queue.tryPop (shared.isOpen late) = s.queue.tryPop (s.isOpen late) := by
    rw [hmirrors.isOpen_eq, hmirrors.queue_eq]
  change Mirrors (shared.tryPop late).2 _
  unfold tryPop Scheduler.tryPop
  rw [hpop]
  rcases s.queue.tryPop (s.isOpen late) with ⟨none | req, queue⟩
  · exact ⟨rfl, rfl, hmirrors.isClosed_eq⟩
  · exact ⟨rfl, rfl, hmirrors.isClosed_eq⟩

theorem Mirrors.perform_closeAndDrain (hmirrors : Mirrors shared s) :
    Mirrors (shared.perform .closeAndDrain) (closeQueue s) := by
  change Mirrors shared.closeAndDrain.2 _
  unfold closeAndDrain closeQueue
  rw [hmirrors.queue_eq]
  exact ⟨rfl, rfl, hmirrors.isClosed_eq⟩

theorem Mirrors.perform_submit (hmirrors : Mirrors shared s) {req : GenerationRequest α}
    {late : List ClientId} (hsubmit : Scheduler.submit req late s = some s') :
    Mirrors (shared.perform (.submit req late)) s' := by
  have hqueue : shared.queue.submit (shared.isOpen late) req = s.queue.submit (s.isOpen late) req := by
    rw [hmirrors.isOpen_eq, hmirrors.queue_eq]
  change Mirrors (shared.submit req late).2 _
  unfold submit
  rw [hqueue]
  unfold Scheduler.submit at hsubmit
  split at hsubmit
  · cases hsubmit
  · dsimp only at hsubmit
    generalize s.queue.submit (s.isOpen late) req = result at hsubmit ⊢
    obtain ⟨accepted, queue⟩ := result
    cases accepted with
    | false => exact Option.some.inj hsubmit ▸ ⟨rfl, rfl, hmirrors.isClosed_eq⟩
    | true => exact Option.some.inj hsubmit ▸ ⟨rfl, rfl, hmirrors.isClosed_eq⟩

theorem Mirrors.perform_client (hmirrors : Mirrors shared s) {client : ClientId}
    {action : ClientAction} {after : Client} (hact : (s.clients client).act action = some after) :
    ∃ calls, Mirrors (performAll calls shared)
      { s with clients := Function.update s.clients client after } := by
  have hkept : after.receiverOpen = (s.clients client).receiverOpen →
      ∃ calls, Mirrors (performAll calls shared)
        { s with clients := Function.update s.clients client after } := by
    intro hopen
    refine ⟨[], hmirrors.queue_eq, hmirrors.gauge_eq, fun other ↦ ?_⟩
    change shared.isClosed other = (Function.update s.clients client after other).isClosed
    by_cases hother : other = client
    · rw [hother, Function.update_self, Client.isClosed, hopen]
      exact hmirrors.isClosed_eq client
    · rw [Function.update_of_ne hother]
      exact hmirrors.isClosed_eq other
  cases action with
  | recv => exact hkept ((Client.act_recv hact).1 ▸ rfl)
  | cancelDone => exact hkept (Option.some.inj hact ▸ rfl)
  | dropReceiver =>
      obtain rfl := Option.some.inj hact
      refine ⟨[.closeReceiver client], hmirrors.queue_eq, hmirrors.gauge_eq, fun other ↦ ?_⟩
      change Function.update shared.isClosed client true other =
        (Function.update s.clients client _ other).isClosed
      by_cases hother : other = client
      · rw [hother, Function.update_self, Function.update_self]
        rfl
      · rw [Function.update_of_ne hother, Function.update_of_ne hother, hmirrors.isClosed_eq]

variable [Kernels α] {scheduler : Scheduler α}

/-- Every step of anybody is a call of the queue, or none. -/
theorem Mirrors.step {action : Action α} (hmirrors : Mirrors shared s)
    (hstep : step scheduler action s = some s') :
    ∃ calls, Mirrors (performAll calls shared) s' := by
  cases step_cases hstep with
  | @sched late _ hsched =>
      rcases frame_schedStep hsched with hframe | ⟨-, rfl⟩ | ⟨-, rfl⟩
      · exact ⟨[], hmirrors.frame hframe⟩
      · exact ⟨[.tryPop late], hmirrors.perform_tryPop late⟩
      · exact ⟨[.closeAndDrain], hmirrors.perform_closeAndDrain⟩
  | @refuse req late _ _ => exact ⟨[.submit req late], hmirrors.perform_submit hstep⟩
  | @accept req late _ _ _ => exact ⟨[.submit req late], hmirrors.perform_submit hstep⟩
  | client hact => exact hmirrors.perform_client hact
  | _ => exact ⟨[], hmirrors.queue_eq, hmirrors.gauge_eq, hmirrors.isClosed_eq⟩

/-- The queue of a scheduler has a history, along every run. -/
theorem exists_history_of_reaches {allowed : State α → Action α → Prop}
    {kvCache : SlabKvCache (KvTensor α)} {capacity : ClientId → ℕ}
    (hreach : Reaches scheduler allowed (Scheduler.init kvCache maxDepth capacity) s) :
    ∃ calls, Mirrors (performAll calls (new maxDepth)) s := by
  induction hreach with
  | refl => exact ⟨[], rfl, rfl, fun _ ↦ rfl⟩
  | step _ _ hnext ih =>
      obtain ⟨calls, hmirrors⟩ := ih
      obtain ⟨more, hstep⟩ := hmirrors.step hnext
      refine ⟨calls ++ more, ?_⟩
      rw [performAll, List.foldl_append]
      exact hstep

/-- What the queue promises holds of the queue of a scheduler: the gauge and the bound. -/
theorem gauge_eq_length {allowed : State α → Action α → Prop}
    {kvCache : SlabKvCache (KvTensor α)} {capacity : ClientId → ℕ}
    (hreach : Reaches scheduler allowed (Scheduler.init kvCache maxDepth capacity) s) :
    s.metrics.queueDepth = s.queue.requests.length ∧ s.queue.requests.length ≤ maxDepth := by
  obtain ⟨calls, hmirrors⟩ := exists_history_of_reaches hreach
  have horderly := orderly_performAll (orderly_new maxDepth) calls
  rw [← hmirrors.gauge_eq, ← hmirrors.queue_eq]
  exact ⟨horderly.gauge, horderly.bounded⟩

end Scheduler

/-- **A bounded stable priority queue with pruning.** After any calls, in any order, with receivers
going away between them: the queue is within its depth and in the order of the submissions; a
submission fails exactly when the queue is closed or full of open requests, and then only prunes; a
pop finds nothing exactly when no request is open, and otherwise takes the first of the highest
priority; within one priority what was popped and what still waits are in the order of the
submissions; popping until nothing is left sorts the open requests stably; the gauge is the length
of the queue; and every accepted request is queued, popped, drained or pruned once, the pruned ones
being those counted as cancelled. -/
theorem bounded_stable_queue (maxDepth : ℕ) (calls : List (Call α)) :
    Promises maxDepth (performAll calls (new maxDepth)) :=
  (orderly_performAll (orderly_new maxDepth) calls).promises

end SharedQueue

end HotBatch
