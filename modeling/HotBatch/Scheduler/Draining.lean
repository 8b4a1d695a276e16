import HotBatch.Core.SlabInvariant
import HotBatch.Scheduler.WithinCapacity
import Mathlib.Algebra.Order.BigOperators.Group.List
import Mathlib.Algebra.Order.Group.Nat
import Mathlib.Data.Prod.Lex
import Mathlib.Order.OrderIsoNat

/-!
# Draining a load

Without new submissions and without a shutdown the scheduler works off what it has. The measure is
the number of tokens that may still be generated, with one more for every request that has not been
admitted. An iteration that reaches a decode pass lowers it in every row, and one that does not has
found neither a running sequence nor an open request. A credit of one, taken at the head of the loop
and given back with the first row, makes this a potential that no single step raises.
-/

namespace HotBatch

/-- The tokens that a sequence may still generate. -/
def Sequence.remaining {α : Type} (seq : Sequence α) : ℕ :=
  seq.sampler.maxNewTokens - seq.generatedTokens.length

/-- A sequence that is done generates no more. -/
def Sequence.left {α : Type} (seq : Sequence α) : ℕ := if seq.isDone then 0 else seq.remaining

namespace Scheduler

variable {α : Type}

/-! ## The load and its potential -/

def waitingLoad (requests : List (GenerationRequest α)) : ℕ :=
  (requests.map fun req ↦ req.maxNewTokens + 1).sum

def runningLoad (running : List (Sequence α)) : ℕ := (running.map Sequence.remaining).sum

/-- What is queued and what is running. -/
def State.load (s : State α) : ℕ := waitingLoad s.queue.requests + runningLoad s.running

def work (running : List (Sequence α)) : ℕ := (running.map Sequence.left).sum

def admitting (candidate : Option (Sequence α)) : ℕ := (candidate.map fun seq ↦ seq.left + 1).getD 0

/-- A pass over the batch that has visited a row, or that has none to visit. -/
def visited : List (Sequence α) → ℕ → ℕ
  | _ :: _, 0 => 0
  | _, _ => 1

def Site.credit (running : List (Sequence α)) : Site α → ℕ
  | delivering index _ => visited running index
  | removing _ | popped _ | allocated _ | prefilled _ => 0

def Pc.credit (running : List (Sequence α)) : Pc α → ℕ
  | loopHead => 1
  | checkDone site | checkClosed site _ => site.credit running
  | failBatch index _ | sampleToken index _ => visited running index
  | sendItems _ _ _ => 1
  | _ => 0

/-- The load, with what is being admitted and the credit. -/
def State.potential (s : State α) : ℕ :=
  waitingLoad s.queue.requests + waitingLoad s.pc.pending + admitting s.pc.candidate +
    work s.running + s.pc.credit s.running

/-! ## The rank of a state -/

def Site.phase : Site α → ℕ
  | removing _ => 10
  | popped _ => 8
  | allocated _ => 6
  | prefilled _ => 4
  | delivering _ _ => 1

/-- The phases of an iteration, counted down; a request that is admitted starts over at `admission`,
with a lower potential. -/
def Pc.phase : Pc α → ℕ
  | checkDone site | checkClosed site _ => site.phase
  | admission => 9
  | admitRequest _ => 7
  | prefill _ => 5
  | evict _ => 3
  | forward => 2
  | failBatch _ _ | sampleToken _ _ | sendItems _ _ _ | idleCheck => 1
  | _ => 0

def Site.rows (total : ℕ) : Site α → ℕ
  | removing index | delivering index _ => total - index
  | popped _ | allocated _ | prefilled _ => 0

/-- Rows of `running` that the loop under way has not finished. -/
def Pc.rows (total : ℕ) : Pc α → ℕ
  | checkDone site | checkClosed site _ => site.rows total
  | evict index | failBatch index _ | sampleToken index _ => total - index
  | sendItems index _ _ => total - (index + 1)
  | _ => 0

/-- The steps within a row. -/
def Pc.withinRow : Pc α → ℕ
  | checkDone _ => 3
  | checkClosed _ _ => 2
  | sampleToken _ _ => 1
  | sendItems _ _ items => 4 + items.length
  | _ => 0

/-- The wakeups that are stored or on their way. -/
def State.wakeups (s : State α) : ℕ := 2 * s.pendingNotifies + if s.permit then 1 else 0

def State.rank (s : State α) : ℕ ×ₗ ℕ ×ₗ ℕ ×ₗ ℕ ×ₗ ℕ :=
  toLex (s.potential, toLex (s.wakeups, toLex (s.pc.phase,
    toLex (s.pc.rows s.running.length, s.pc.withinRow))))

section Rank

variable {s s' : State α}

theorem rank_lt_of_potential (hpotential : s'.potential < s.potential) : s'.rank < s.rank :=
  Prod.Lex.toLex_lt_toLex.mpr (Or.inl hpotential)

theorem rank_lt_of_wakeups (hpotential : s'.potential ≤ s.potential)
    (hwakeups : s'.wakeups < s.wakeups) : s'.rank < s.rank :=
  Prod.Lex.toLex_lt_toLex'.mpr ⟨hpotential, fun _ ↦ Prod.Lex.toLex_lt_toLex.mpr (Or.inl hwakeups)⟩

theorem rank_lt_of_phase (hpotential : s'.potential ≤ s.potential) (hwakeups : s'.wakeups ≤ s.wakeups)
    (hphase : s'.pc.phase < s.pc.phase) : s'.rank < s.rank :=
  Prod.Lex.toLex_lt_toLex'.mpr ⟨hpotential, fun _ ↦ Prod.Lex.toLex_lt_toLex'.mpr
    ⟨hwakeups, fun _ ↦ Prod.Lex.toLex_lt_toLex.mpr (Or.inl hphase)⟩⟩

theorem rank_lt_of_rows (hpotential : s'.potential ≤ s.potential) (hwakeups : s'.wakeups ≤ s.wakeups)
    (hphase : s'.pc.phase ≤ s.pc.phase)
    (hrows : s'.pc.rows s'.running.length < s.pc.rows s.running.length) : s'.rank < s.rank :=
  Prod.Lex.toLex_lt_toLex'.mpr ⟨hpotential, fun _ ↦ Prod.Lex.toLex_lt_toLex'.mpr
    ⟨hwakeups, fun _ ↦ Prod.Lex.toLex_lt_toLex'.mpr
      ⟨hphase, fun _ ↦ Prod.Lex.toLex_lt_toLex.mpr (Or.inl hrows)⟩⟩⟩

theorem rank_lt_of_withinRow (hpotential : s'.potential ≤ s.potential)
    (hwakeups : s'.wakeups ≤ s.wakeups) (hphase : s'.pc.phase ≤ s.pc.phase)
    (hrows : s'.pc.rows s'.running.length ≤ s.pc.rows s.running.length)
    (hwithin : s'.pc.withinRow < s.pc.withinRow) : s'.rank < s.rank :=
  Prod.Lex.toLex_lt_toLex'.mpr ⟨hpotential, fun _ ↦ Prod.Lex.toLex_lt_toLex'.mpr
    ⟨hwakeups, fun _ ↦ Prod.Lex.toLex_lt_toLex'.mpr ⟨hphase, fun _ ↦
      Prod.Lex.toLex_lt_toLex'.mpr ⟨hrows, fun _ ↦ hwithin⟩⟩⟩⟩

theorem potential_le_of_rank_le (hrank : s'.rank ≤ s.rank) : s'.potential ≤ s.potential :=
  (Prod.Lex.toLex_le_toLex'.mp hrank).1

end Rank

/-! ## What the steps do to the parts of the potential -/

section Parts

variable {running : List (Sequence α)} {seq : Sequence α} {index : ℕ}

theorem left_of_done (hdone : seq.isDone = true) : seq.left = 0 := if_pos hdone

theorem left_of_not_done (hdone : seq.isDone = false) : seq.left = seq.remaining :=
  if_neg (by simp [hdone])

theorem left_le_remaining (seq : Sequence α) : seq.left ≤ seq.remaining := by
  unfold Sequence.left
  split
  · exact Nat.zero_le _
  · exact Nat.le_refl _

theorem visited_le_one (running : List (Sequence α)) (index : ℕ) : visited running index ≤ 1 := by
  unfold visited
  split
  · exact Nat.zero_le 1
  · exact Nat.le_refl 1

theorem visited_succ (running : List (Sequence α)) (index : ℕ) : visited running (index + 1) = 1 := by
  cases running <;> rfl

theorem visited_of_end (hend : running[index]? = none) : visited running index = 1 := by
  cases running with
  | nil => rfl
  | cons first rest =>
      cases index with
      | zero => cases hend
      | succ index => rfl

theorem visited_zero (hne : running ≠ []) : visited running 0 = 0 := by
  obtain ⟨first, rest, rfl⟩ := List.exists_cons_of_ne_nil hne
  rfl

/-- Reaping takes out what does no more work. -/
theorem work_reap (running : List (Sequence α)) :
    work (running.filter fun seq ↦ !seq.isDone) = work running := by
  induction running with
  | nil => rfl
  | cons first rest ih =>
      cases hdone : first.isDone with
      | true =>
          rw [List.filter_cons_of_neg (by simp [hdone]), ih]
          change _ = first.left + work rest
          rw [left_of_done hdone, Nat.zero_add]
      | false =>
          rw [List.filter_cons_of_pos (by simp [hdone])]
          exact congrArg (first.left + ·) ih

theorem work_set (hseq : running[index]? = some seq) (other : Sequence α) :
    work (running.set index other) + seq.left = work running + other.left := by
  obtain ⟨hlt, rfl⟩ := List.getElem?_eq_some_iff.mp hseq
  induction running generalizing index with
  | nil => cases hlt
  | cons first rest ih =>
      cases index with
      | zero =>
          change other.left + work rest + first.left = first.left + work rest + other.left
          omega
      | succ index =>
          have hrest := ih (Nat.lt_of_succ_lt_succ hlt) (List.getElem?_eq_getElem _)
          change first.left + work (rest.set index other) + _ = first.left + work rest + other.left
          rw [List.getElem_cons_succ]
          omega

/-- A sequence that is given up does no more work. -/
theorem work_modify (hseq : running[index]? = some seq) {f : Sequence α → Sequence α}
    (hdone : (f seq).isDone = true) : work (running.modify index f) + seq.left = work running := by
  rw [modify_eq_set hseq, work_set hseq (f seq), left_of_done hdone, Nat.add_zero]

theorem work_concat (running : List (Sequence α)) (seq : Sequence α) :
    work (running ++ [seq]) = work running + seq.left := by
  unfold work
  rw [List.map_append, List.sum_append]
  rfl

theorem work_eq_runningLoad (hdone : ∀ seq ∈ running, seq.isDone = false) :
    work running = runningLoad running :=
  congrArg List.sum (List.map_congr_left fun seq hseq ↦ left_of_not_done (hdone seq hseq))

theorem waitingLoad_filter_le (requests : List (GenerationRequest α))
    (keep : GenerationRequest α → Bool) :
    waitingLoad (requests.filter keep) ≤ waitingLoad requests :=
  (List.filter_sublist.map _).sum_le_sum fun _ _ ↦ Nat.zero_le _

theorem waitingLoad_perm {requests others : List (GenerationRequest α)}
    (hperm : requests.Perm others) : waitingLoad requests = waitingLoad others :=
  (hperm.map _).sum_eq

theorem waitingLoad_singleton (req : GenerationRequest α) :
    waitingLoad [req] = req.maxNewTokens + 1 := Nat.add_zero _

theorem waitingLoad_cons (req : GenerationRequest α) (rest : List (GenerationRequest α)) :
    waitingLoad (req :: rest) = req.maxNewTokens + 1 + waitingLoad rest := List.sum_cons

/-- A new sequence has all its tokens ahead of it. -/
theorem left_of_new {τ : Type} {req : GenerationRequest α} {cache kvCache : SlabKvCache τ}
    (hnew : Sequence.new req cache = (.ok seq, kvCache)) : seq.left = req.maxNewTokens := by
  obtain ⟨handle, rfl⟩ := Sequence.exists_ofRequest_of_new hnew
  rfl

theorem left_markRunning (seq : Sequence α) : seq.markRunning.left = seq.left := by
  have hremaining : seq.markRunning.remaining = seq.remaining := by
    unfold Sequence.markRunning
    split <;> rfl
  rw [Sequence.left, Sequence.left, Sequence.markRunning_isDone, hremaining]

variable [Kernels α]

/-- A sampled token is one less to generate. -/
theorem left_advance {row : LogitRow α} {tokens : List Token} {stepped : Sequence α}
    (hadvance : seq.advance row = some (tokens, stepped)) (hleft : 0 < seq.left) :
    stepped.left < seq.left := by
  obtain ⟨-, -, -, -, -, hsampler, hgenerated⟩ := Sequence.advance_frame hadvance
  have hmax : stepped.sampler.maxNewTokens = seq.sampler.maxNewTokens := by
    unfold Sampler.maxNewTokens
    rw [hsampler, Sampler.sample_config]
  have hremaining : stepped.remaining = seq.remaining - 1 := by
    unfold Sequence.remaining
    rw [hmax, hgenerated, List.length_append]
    exact Nat.sub_add_eq _ _ 1
  calc stepped.left
    _ ≤ stepped.remaining := left_le_remaining stepped
    _ = seq.remaining - 1 := hremaining
    _ < seq.left := by
      cases hdone : seq.isDone with
      | true =>
          rw [left_of_done hdone] at hleft
          cases hleft
      | false =>
          rw [left_of_not_done hdone] at hleft ⊢
          exact Nat.sub_lt hleft Nat.one_pos

/-- Before its turn a running sequence has tokens left. -/
theorem Follows.left_pos {scheduler : Scheduler α} {maxSeqLen turns : ℕ}
    {req : GenerationRequest α} (hfollows : Follows scheduler maxSeqLen req turns seq)
    (hdone : seq.isDone = false) : 0 < seq.left := by
  have hlimit : seq.sampler.maxNewTokens = req.maxNewTokens := by
    unfold Sampler.maxNewTokens GenerationRequest.maxNewTokens
    rw [(hfollows.serves hdone).config_eq]
  rw [left_of_not_done hdone]
  apply Nat.sub_pos_of_lt
  rw [hlimit]
  exact hfollows.generated_lt hdone

end Parts

/-! ## Every step lowers the rank -/

section Steps

variable {s : State α}

/-- Apart from admission, only the queue, `running` and the credit count. -/
theorem potential_eq (pc : Pc α) (hpc : s.pc = pc) (hpending : pc.pending = [])
    (hcandidate : pc.candidate = none) :
    s.potential = waitingLoad s.queue.requests + work s.running + pc.credit s.running := by
  rw [State.potential, hpc, hpending, hcandidate]
  rfl

theorem potential_endStep (s : State α) :
    (endStep s).potential = waitingLoad s.queue.requests + work s.running + 1 := by
  rw [← work_reap s.running]
  exact potential_eq (s := endStep s) _ rfl rfl rfl

/-- What the visit of a row does when it gives the sequence up. -/
theorem rank_lt_of_visit {s' : State α} {index : ℕ} {seq : Sequence α}
    (hindex : s.running[index]? = some seq) (hqueue : s'.queue = s.queue)
    (hwakeups : s'.wakeups = s.wakeups)
    (hbefore : s.potential =
      waitingLoad s.queue.requests + work s.running + visited s.running index)
    (hafter : s'.potential = waitingLoad s'.queue.requests + work s'.running + 1)
    (hwork : work s'.running + 1 ≤ work s.running) (hphase : s'.pc.phase ≤ s.pc.phase)
    (hlength : s'.running.length = s.running.length)
    (hrowsBefore : s.pc.rows s.running.length = s.running.length - index)
    (hrowsAfter : s'.pc.rows s'.running.length = s'.running.length - (index + 1)) :
    s'.rank < s.rank := by
  have hlt : index < s.running.length := (List.getElem?_eq_some_iff.mp hindex).1
  apply rank_lt_of_rows _ hwakeups.le hphase
  · rw [hrowsBefore, hrowsAfter, hlength]
    omega
  · rw [hbefore, hafter, hqueue]
    omega

/-- What was being admitted is given up. -/
theorem rank_lt_of_dropped {s' : State α} {load : ℕ} (hbefore : s.potential =
      waitingLoad s.queue.requests + (load + 1) + work s.running) (hpc : s'.pc = .admission)
    (hqueue : s'.queue = s.queue) (hrunning : s'.running = s.running) : s'.rank < s.rank := by
  apply rank_lt_of_potential
  rw [hbefore, potential_eq .admission hpc rfl rfl, hqueue, hrunning]
  change waitingLoad s.queue.requests + work s.running + 0 < _
  omega

/-- Before its turn a running sequence still has something to generate. -/
def EachLeft (s : State α) : Prop :=
  ∀ index seq, s.pc.Unvisited index → s.running[index]? = some seq → 0 < seq.left

/-- What is held of a request that is being admitted counts. -/
theorem held_pos {site : Site α} (hpromised : site.promised = 1) :
    0 < waitingLoad site.pending + admitting site.candidate := by
  cases site with
  | popped req =>
      rw [show (Site.popped req).pending = [req] from rfl, waitingLoad_singleton]
      exact Nat.lt_add_right _ (Nat.succ_pos _)
  | allocated seq | prefilled seq => exact Nat.lt_add_left _ (Nat.succ_pos _)
  | removing _ | delivering _ _ => cases hpromised

theorem potential_abandon {site : Site α} (hpromised : site.promised = 1) (s : State α) :
    (abandon site s).potential = waitingLoad s.queue.requests + work s.running := by
  cases site with
  | popped _ | allocated _ | prefilled _ => exact potential_eq (s := abandon _ s) _ rfl rfl rfl
  | removing _ | delivering _ _ => cases hpromised

theorem rank_abandon {site : Site α} {client : ClientId} (s' : State α)
    (hpc : s.pc = .checkDone site ∨ s.pc = .checkClosed site client) (hleft : EachLeft s)
    (hclient : site.client s.running = some client) (hqueue : s'.queue = s.queue)
    (hrunning : s'.running = s.running) (hwakeups : s'.wakeups = s.wakeups) :
    (abandon site s').rank < s.rank := by
  have hpending : s.pc.pending = site.pending := by rcases hpc with h | h <;> rw [h] <;> rfl
  have hcandidate : s.pc.candidate = site.candidate := by rcases hpc with h | h <;> rw [h] <;> rfl
  have hcredit : s.pc.credit s.running = site.credit s.running := by
    rcases hpc with h | h <;> rw [h] <;> rfl
  have hphase : s.pc.phase = site.phase := by rcases hpc with h | h <;> rw [h] <;> rfl
  have hrows : s.pc.rows s.running.length = site.rows s.running.length := by
    rcases hpc with h | h <;> rw [h] <;> rfl
  have hbefore : s.potential = waitingLoad s.queue.requests + waitingLoad site.pending +
      admitting site.candidate + work s.running + site.credit s.running := by
    rw [State.potential, hpending, hcandidate, hcredit]
  have hadmission : site.promised = 1 → (abandon site s').rank < s.rank := by
    intro hpromised
    have hheld := held_pos hpromised
    apply rank_lt_of_potential
    rw [potential_abandon hpromised, hbefore, hqueue, hrunning]
    omega
  have hgiven : ∀ {index : ℕ} {seq : Sequence α}, s.running[index]? = some seq →
      work (s'.running.modify index Sequence.cancel) + seq.left = work s.running ∧
        (s'.running.modify index Sequence.cancel).length = s.running.length := by
    intro index seq hseq
    rw [hrunning]
    exact ⟨work_modify hseq (Sequence.cancel_isDone _), List.length_modify _ _ _⟩
  cases site with
  | popped _ | allocated _ | prefilled _ => exact hadmission rfl
  | removing index =>
      obtain ⟨seq, hseq, -⟩ := Option.map_eq_some_iff.mp hclient
      obtain ⟨hwork, hlength⟩ := hgiven hseq
      have hlt : index < s.running.length := (List.getElem?_eq_some_iff.mp hseq).1
      have hafter : (abandon (.removing index) s').potential =
          waitingLoad s'.queue.requests + work (s'.running.modify index Sequence.cancel) :=
        potential_eq (s := abandon (.removing index) s') _ rfl rfl rfl
      refine rank_lt_of_rows ?_ hwakeups.le hphase.ge ?_
      · rw [hbefore, hafter, hqueue]
        omega
      · change (s'.running.modify index Sequence.cancel).length - (index + 1) < _
        rw [hlength, hrows]
        change _ < s.running.length - index
        omega
  | delivering index logits =>
      obtain ⟨seq, hseq, -⟩ := Option.map_eq_some_iff.mp hclient
      obtain ⟨hwork, hlength⟩ := hgiven hseq
      have hunvisited : s.pc.Unvisited index := by
        rcases hpc with h | h <;> rw [h] <;> exact Nat.le_refl index
      have hpos := hleft index seq hunvisited hseq
      have hafter : (abandon (.delivering index logits) s').potential =
          waitingLoad s'.queue.requests + work (s'.running.modify index Sequence.cancel) + 1 := by
        rw [← visited_succ (s'.running.modify index Sequence.cancel) index]
        exact potential_eq (s := abandon (.delivering index logits) s') _ rfl rfl rfl
      refine rank_lt_of_visit hseq hqueue hwakeups hbefore hafter ?_ hphase.ge hlength hrows rfl
      change work (s'.running.modify index Sequence.cancel) + 1 ≤ _
      omega

theorem rank_proceed {site : Site α} {client : ClientId} (hpc : s.pc = .checkClosed site client)
    (hclient : site.client s.running = some client) : (proceed site s).rank < s.rank := by
  cases site with
  | removing index =>
      obtain ⟨seq, hseq, -⟩ := Option.map_eq_some_iff.mp hclient
      have hlt : index < s.running.length := (List.getElem?_eq_some_iff.mp hseq).1
      refine rank_lt_of_rows ?_ (Nat.le_refl _) ?_ ?_
      · exact (potential_eq _ hpc rfl rfl).ge
      · rw [hpc]
        exact Nat.le_refl _
      · rw [hpc]
        change s.running.length - (index + 1) < s.running.length - index
        omega
  | popped req =>
      refine rank_lt_of_phase ?_ (Nat.le_refl _) ?_
      · rw [State.potential, State.potential, hpc]
        exact Nat.le_refl _
      · rw [hpc]
        exact Nat.lt_succ_self 7
  | allocated seq =>
      refine rank_lt_of_phase ?_ (Nat.le_refl _) ?_
      · rw [State.potential, State.potential, hpc]
        exact Nat.le_refl _
      · rw [hpc]
        exact Nat.lt_succ_self 5
  | prefilled seq =>
      apply rank_lt_of_potential
      have hafter : (proceed (.prefilled seq) s).potential =
          waitingLoad s.queue.requests + work (s.running ++ [seq]) :=
        potential_eq (s := proceed (.prefilled seq) s) _ rfl rfl rfl
      rw [hafter, work_concat, State.potential, hpc]
      change _ < waitingLoad s.queue.requests + 0 + (seq.left + 1) + work s.running + 0
      omega
  | delivering index logits =>
      refine rank_lt_of_withinRow ?_ (Nat.le_refl _) ?_ ?_ ?_
      · exact (potential_eq _ hpc rfl rfl).ge
      · rw [hpc]
        exact Nat.le_refl _
      · rw [hpc]
        exact Nat.le_refl _
      · rw [hpc]
        exact Nat.lt_succ_self 1

theorem rank_endLoop {site : Site α} (hpc : s.pc = .checkDone site)
    (hclient : site.client s.running = none) : (endLoop site s).rank < s.rank := by
  cases site with
  | popped _ | allocated _ | prefilled _ => cases hclient
  | removing index =>
      refine rank_lt_of_phase ?_ (Nat.le_refl _) ?_
      · have hafter : (endLoop (.removing index) s).potential =
            waitingLoad s.queue.requests + work (s.running.filter fun seq ↦ !seq.isDone) :=
          potential_eq (s := endLoop (.removing index) s) _ rfl rfl rfl
        rw [hafter, work_reap]
        exact (potential_eq _ hpc rfl rfl).ge
      · rw [hpc]
        exact Nat.lt_succ_self 9
  | delivering index logits =>
      refine rank_lt_of_phase ?_ (Nat.le_refl _) ?_
      · have hcredit : Pc.credit s.running (.checkDone (.delivering index logits)) = 1 :=
          visited_of_end (Option.map_eq_none_iff.mp hclient)
        rw [show endLoop (.delivering index logits) s = endStep s from rfl, potential_endStep,
          potential_eq _ hpc rfl rfl, hcredit]
      · rw [hpc]
        exact Nat.lt_succ_self 0

theorem rank_tryPop (late : List ClientId) (hpc : s.pc = .admission) : (tryPop late s).rank < s.rank := by
  have hbefore : s.potential = waitingLoad s.queue.requests + work s.running :=
    potential_eq _ hpc rfl rfl
  have hkept : waitingLoad (s.queue.retainOpen (s.isOpen late)).requests ≤
      waitingLoad s.queue.requests := waitingLoad_filter_le _ _
  unfold tryPop
  rcases RequestQueue.tryPop_cases (s.isOpen late) s.queue with
    ⟨hpop, -⟩ | ⟨req, rest, hpop, hperm⟩
  · rw [hpop]
    refine rank_lt_of_phase ?_ (Nat.le_refl _) ?_
    · rw [hbefore]
      calc State.potential _
        _ = waitingLoad (s.queue.retainOpen (s.isOpen late)).requests + work s.running :=
          potential_eq (.evict 0) rfl rfl rfl
        _ ≤ waitingLoad s.queue.requests + work s.running := Nat.add_le_add_right hkept _
    · rw [hpc]
      exact (by decide : 3 < 9)
  · rw [hpop]
    refine rank_lt_of_phase ?_ (Nat.le_refl _) ?_
    · rw [hbefore]
      calc State.potential _
        _ = waitingLoad rest + waitingLoad [req] + 0 + work s.running + 0 := rfl
        _ = waitingLoad (req :: rest) + work s.running := by
          change waitingLoad rest + waitingLoad [req] + _ = _
          rw [waitingLoad_singleton, waitingLoad_cons, Nat.add_comm (waitingLoad rest)]
        _ ≤ waitingLoad s.queue.requests + work s.running := by
          rw [waitingLoad_perm hperm]
          exact Nat.add_le_add_right hkept _
    · rw [hpc]
      exact (by decide : 8 < 9)

theorem rank_admitRequest (scheduler : Scheduler α) {req : GenerationRequest α}
    (hpc : s.pc = .admitRequest req) : (admitRequest scheduler req s).rank < s.rank := by
  have hbefore : s.potential = waitingLoad s.queue.requests + (req.maxNewTokens + 1) +
      work s.running := by
    rw [State.potential, hpc]
    exact congrArg (fun count ↦ waitingLoad s.queue.requests + count + work s.running)
      (waitingLoad_singleton req)
  unfold admitRequest
  split
  · exact rank_lt_of_dropped hbefore rfl rfl rfl
  · split
    · exact rank_lt_of_dropped hbefore rfl rfl rfl
    · rename_i seq kvCache hnew
      refine rank_lt_of_phase ?_ (Nat.le_refl _) ?_
      · rw [hbefore, State.potential]
        change waitingLoad s.queue.requests + 0 + (seq.left + 1) + work s.running + 0 ≤ _
        rw [left_of_new hnew]
        exact Nat.le_refl _
      · rw [hpc]
        exact (by decide : 6 < 7)

theorem rank_failBatchAt {index : ℕ} {message : String} (hpc : s.pc = .failBatch index message)
    (hleft : EachLeft s) : (failBatchAt index message s).rank < s.rank := by
  have hbefore : s.potential =
      waitingLoad s.queue.requests + work s.running + visited s.running index :=
    potential_eq _ hpc rfl rfl
  unfold failBatchAt
  split
  · rename_i hend
    refine rank_lt_of_phase ?_ (Nat.le_refl _) ?_
    · rw [hbefore, potential_endStep, visited_of_end hend]
    · rw [hpc]
      exact Nat.lt_succ_self 0
  · rename_i seq hseq
    have hpos : 0 < seq.left := by
      apply hleft index seq _ hseq
      rw [hpc]
      exact Nat.le_refl index
    have hwork := work_modify hseq (Sequence.fail_isDone seq)
    refine rank_lt_of_visit hseq rfl rfl hbefore ?_ ?_ ?_ (List.length_modify _ _ _) ?_ rfl
    · rw [potential_eq (.failBatch (index + 1) message) rfl rfl rfl]
      exact congrArg _ (visited_succ _ index)
    · change work (s.running.modify index Sequence.fail) + 1 ≤ _
      omega
    · rw [hpc]
      exact Nat.le_refl _
    · rw [hpc]
      rfl

/-- The end of the scan for positions. -/
theorem evictAt_end {scheduler : Scheduler α} {index : ℕ} (hend : s.running[index]? = none) :
    evictAt scheduler index s = s.reapDoneSequences.goto
      (if s.reapDoneSequences.running.isEmpty then .idleCheck else .forward) := by
  unfold evictAt
  rw [hend]

theorem rank_evictAt {scheduler : Scheduler α} {index : ℕ} (hpc : s.pc = .evict index)
    (hkept : ∀ seq, s.running[index]? = some seq →
      evictAt scheduler index s = s.goto (.evict (index + 1))) :
    (evictAt scheduler index s).rank < s.rank := by
  have hbefore : s.potential = waitingLoad s.queue.requests + work s.running :=
    potential_eq _ hpc rfl rfl
  cases hseq : s.running[index]? with
  | none =>
      have hphase : (evictAt scheduler index s).pc.phase < 3 := by
        rw [evictAt_end hseq]
        change Pc.phase (if _ then _ else _) < 3
        split
        · exact (by decide : 1 < 3)
        · exact (by decide : 2 < 3)
      refine rank_lt_of_phase ?_ ?_ ?_
      · rw [hbefore, ← work_reap s.running, evictAt_end hseq]
        split
        · exact (potential_eq .idleCheck rfl rfl rfl).le
        · exact (potential_eq .forward rfl rfl rfl).le
      · rw [evictAt_end hseq]
        exact Nat.le_refl _
      · rw [hpc]
        exact hphase
  | some seq =>
      have hlt : index < s.running.length := (List.getElem?_eq_some_iff.mp hseq).1
      rw [hkept seq hseq]
      refine rank_lt_of_rows ?_ (Nat.le_refl _) ?_ ?_
      · rw [hbefore]
        exact (potential_eq (.evict (index + 1)) rfl rfl rfl).le
      · rw [hpc]
        exact Nat.le_refl _
      · rw [hpc]
        change s.running.length - (index + 1) < s.running.length - index
        omega

theorem rank_sendItems {index : ℕ} {logits : List (LogitRow α)} {items : List StreamItem}
    (hpc : s.pc = .sendItems index logits items) : (sendItems index logits items s).rank < s.rank := by
  have hbefore : s.potential = waitingLoad s.queue.requests + work s.running + 1 :=
    potential_eq _ hpc rfl rfl
  have hphase : s.pc.phase = 1 := by rw [hpc]; rfl
  have hrows : s.pc.rows s.running.length = s.running.length - (index + 1) := by rw [hpc]; rfl
  unfold sendItems
  split
  · rename_i seq item rest hseq
    refine rank_lt_of_withinRow ?_ (Nat.le_refl _) hphase.ge hrows.ge ?_
    · rw [hbefore]
      exact (potential_eq (.sendItems index logits rest) rfl rfl rfl).le
    · rw [hpc]
      exact Nat.lt_succ_self (4 + rest.length)
  · refine rank_lt_of_withinRow ?_ (Nat.le_refl _) hphase.ge hrows.ge ?_
    · rw [hbefore, potential_eq (.checkDone (.delivering (index + 1) logits)) rfl rfl rfl]
      exact Nat.add_le_add_left (visited_le_one _ _) _
    · rw [hpc]
      exact Nat.lt_of_lt_of_le (Nat.lt_succ_self 3) (Nat.le_add_right 4 _)

variable [Kernels α] {scheduler : Scheduler α}

theorem rank_prefill {seq : Sequence α} (hpc : s.pc = .prefill seq) :
    (prefill scheduler seq s).rank < s.rank := by
  have hbefore : s.potential = waitingLoad s.queue.requests + (seq.left + 1) + work s.running := by
    rw [State.potential, hpc]
    rfl
  unfold prefill
  split
  · exact rank_lt_of_dropped hbefore rfl rfl rfl
  · refine rank_lt_of_phase ?_ (Nat.le_refl _) ?_
    · rw [hbefore, State.potential, ← left_markRunning]
      exact Nat.le_refl _
    · rw [hpc]
      exact Nat.lt_succ_self 4

theorem rank_forward (hpc : s.pc = .forward) (hne : s.running ≠ []) :
    (forward scheduler s).rank < s.rank := by
  have hbefore : s.potential = waitingLoad s.queue.requests + work s.running :=
    potential_eq _ hpc rfl rfl
  have hcredit := visited_zero hne
  unfold forward
  split
  · refine rank_lt_of_phase ?_ (Nat.le_refl _) ?_
    · rw [hbefore, potential_eq (.failBatch 0 _) rfl rfl rfl]
      change waitingLoad s.queue.requests + work s.running + visited s.running 0 ≤ _
      rw [hcredit]
      exact Nat.le_refl _
    · rw [hpc]
      exact Nat.lt_succ_self 1
  · refine rank_lt_of_phase ?_ (Nat.le_refl _) ?_
    · rw [hbefore, potential_eq (.checkDone (.delivering 0 _)) rfl rfl rfl]
      change waitingLoad s.queue.requests + work s.running + visited s.running 0 ≤ _
      rw [hcredit]
      exact Nat.le_refl _
    · rw [hpc]
      exact Nat.lt_succ_self 1

/-- The index is one of `running`, and sampling never panics there. -/
theorem rank_sampleToken {index : ℕ} {logits : List (LogitRow α)}
    (hpc : s.pc = .sampleToken index logits) (hlt : index < s.running.length) (hleft : EachLeft s)
    (hadvances : ∀ seq, s.running[index]? = some seq → ∀ row, (seq.advance row).isSome = true) :
    (sampleToken index logits s).rank < s.rank := by
  have hbefore : s.potential =
      waitingLoad s.queue.requests + work s.running + visited s.running index :=
    potential_eq _ hpc rfl rfl
  have hpos : ∀ seq, s.running[index]? = some seq → 0 < seq.left := by
    intro seq hseq
    apply hleft index seq _ hseq
    rw [hpc]
    exact Nat.le_refl index
  have hphase : s.pc.phase = 1 := by rw [hpc]; rfl
  have hrows : s.pc.rows s.running.length = s.running.length - index := by rw [hpc]; rfl
  unfold sampleToken
  split
  · rename_i hend
    exact absurd hlt (List.getElem?_eq_none_iff.mp hend).not_gt
  · rename_i seq hseq
    have hleftSeq := hpos seq hseq
    split
    · have hwork := work_modify hseq (Sequence.fail_isDone seq)
      refine rank_lt_of_visit hseq rfl rfl hbefore ?_ ?_ hphase.ge (List.length_modify _ _ _) hrows rfl
      · rw [potential_eq (.checkDone (.delivering (index + 1) logits)) rfl rfl rfl]
        exact congrArg _ (visited_succ _ index)
      · change work (s.running.modify index Sequence.fail) + 1 ≤ _
        omega
    · rename_i row _
      split
      · rename_i hnone
        have hsome := hadvances seq hseq row
        rw [hnone] at hsome
        cases hsome
      · rename_i tokens stepped hadvance
        have hstepped := left_advance hadvance hleftSeq
        dsimp only
        split
        · have hwork := work_set hseq stepped
          refine rank_lt_of_visit hseq rfl rfl hbefore ?_ ?_ hphase.ge List.length_set hrows rfl
          · exact potential_eq (.sendItems index logits _) rfl rfl rfl
          · change work (s.running.set index stepped) + 1 ≤ _
            omega
        · have hwork := work_set hseq stepped.cancel
          rw [left_of_done (Sequence.cancel_isDone stepped)] at hwork
          refine rank_lt_of_visit hseq rfl rfl hbefore ?_ ?_ hphase.ge List.length_set hrows rfl
          · rw [potential_eq (.checkDone (.delivering (index + 1) logits)) rfl rfl rfl]
            exact congrArg _ (visited_succ _ index)
          · change work (s.running.set index stepped.cancel) + 1 ≤ _
            omega

end Steps

/-! ## Runs without submissions -/

section Runs

variable {s s' : State α}

/-- Nobody submits anything or shuts the server down. -/
def Undisturbed (_ : State α) : Action α → Prop
  | .submit _ _ | .shutdown => False
  | .sched _ | .schedShutdown | .notify | .client _ _ => True

/-- Where an undisturbed scheduler can stand: it is not on its way out, it leaves admission with a
full batch or an empty queue, and it is idle only when it has nothing at all. -/
def Settled (scheduler : Scheduler α) (s : State α) : Pc α → Prop
  | .evict _ => (∀ seq ∈ s.running, seq.isDone = false) ∧ (s.queue.requests = [] ∨
      s.running.length = min scheduler.config.maxRunningSeqs s.kvCache.maxSequences)
  | .idleCheck | .parked => s.queue.requests = [] ∧ s.running = []
  | .closeQueue | .answerQueued _ | .answerRunning | .returned | .panicked => False
  | _ => True

structure Draining (scheduler : Scheduler α) (s : State α) : Prop where
  noShutdown : s.shutdown = false
  settled : Settled scheduler s s.pc

variable [Kernels α] {scheduler : Scheduler α}

theorem next_admission {late : List ClientId} (hpc : s.pc = .admission)
    (hnext : next scheduler late s = some s') :
    s' = if mayAdmit scheduler s then tryPop late s else endAdmission s := by
  unfold next at hnext
  rw [hpc] at hnext
  exact (Option.some.inj hnext).symm

theorem next_idleCheck {late : List ClientId} (hpc : s.pc = .idleCheck)
    (hempty : s.queue.requests = []) (hnext : next scheduler late s = some s') :
    s' = s.goto .parked := by
  unfold next at hnext
  rw [hpc] at hnext
  dsimp only at hnext
  rw [hempty] at hnext
  exact (Option.some.inj hnext).symm

/-- The shutdown flag is only written by the operator. -/
theorem shutdown_next {late : List ClientId} (hnext : next scheduler late s = some s') :
    s'.shutdown = s.shutdown := by
  rcases frame_schedStep (schedStep_of_next hnext) with hframe | ⟨-, rfl⟩ | ⟨-, rfl⟩
  · exact hframe.shutdown_eq
  · unfold tryPop
    split <;> rfl
  · rfl

variable {origin : SlabKvCache (KvTensor α)} {maxSeqLen : ℕ}

/-- A sequence whose turn has not come is on the way of its private run. -/
theorem follows_of_unvisited (hslots : Slots scheduler origin s.pc s.running s.kvCache)
    (hfollowing : Following scheduler maxSeqLen s) {index : ℕ} {seq : Sequence α}
    (hunvisited : s.pc.Unvisited index) (hseq : s.running[index]? = some seq) :
    seq.isDone = false ∧ ∃ req turns, Follows scheduler maxSeqLen req turns seq := by
  obtain ⟨req, -, turns, hfollows, -⟩ := hfollowing.running index seq hseq
  exact ⟨hslots.notDone index seq hunvisited hseq, req, turns, hfollows⟩

theorem eachLeft_of_following (hslots : Slots scheduler origin s.pc s.running s.kvCache)
    (hfollowing : Following scheduler maxSeqLen s) : EachLeft s := by
  intro index seq hunvisited hseq
  obtain ⟨hdone, req, turns, hfollows⟩ := follows_of_unvisited hslots hfollowing hunvisited hseq
  exact hfollows.left_pos hdone

theorem advances_of_following (hslots : Slots scheduler origin s.pc s.running s.kvCache)
    (hfollowing : Following scheduler maxSeqLen s) {index : ℕ} {logits : List (LogitRow α)}
    (hpc : s.pc = .sampleToken index logits) (seq : Sequence α)
    (hseq : s.running[index]? = some seq) (row : LogitRow α) : (seq.advance row).isSome = true := by
  have hunvisited : s.pc.Unvisited index := by
    rw [hpc]
    exact Nat.le_refl index
  obtain ⟨hdone, req, turns, hfollows⟩ := follows_of_unvisited hslots hfollowing hunvisited hseq
  obtain ⟨tokens, stepped, hadvance⟩ := (hfollows.serves hdone).exists_advance row
  rw [hadvance]
  rfl

omit [Kernels α] in
/-- With nobody being admitted there are as many slots allocated as sequences running. -/
theorem allocatedSlots_eq [Zero α] (hslots : Slots scheduler origin s.pc s.running s.kvCache)
    (hcandidate : s.pc.candidate = none) : s.kvCache.allocatedSlots = s.running.length := by
  have hnodup := hslots.nodup
  have hcurrent : {handle | s.kvCache.IsCurrentHandle handle} =
      ((s.running.map Sequence.kvHandle).toFinset : Set KvHandle) := by
    ext handle
    rw [Set.mem_ofPred_eq, hslots.current_iff, hcandidate, Option.toList_none, List.append_nil,
      List.coe_toFinset]
    rfl
  rw [hcandidate, Option.toList_none, List.append_nil] at hnodup
  calc s.kvCache.allocatedSlots
    _ = {handle | s.kvCache.IsCurrentHandle handle}.ncard := hslots.wf.ncard_current.symm
    _ = (s.running.map Sequence.kvHandle).toFinset.card := by rw [hcurrent, Set.ncard_coe_finset]
    _ = (s.running.map Sequence.kvHandle).length := List.toFinset_card_of_nodup hnodup
    _ = s.running.length := List.length_map _

omit [Kernels α] in
/-- A full batch has as many sequences as configuration and cache allow. -/
theorem length_eq_of_full [Zero α] (hslots : Slots scheduler origin s.pc s.running s.kvCache)
    (hpc : s.pc = .admission) (hfull : ¬ mayAdmit scheduler s = true) :
    s.running.length = min scheduler.config.maxRunningSeqs s.kvCache.maxSequences := by
  have hcandidate : s.pc.candidate = none := by rw [hpc]; rfl
  have hallocated := allocatedSlots_eq hslots hcandidate
  have hrunning : s.running.length ≤ scheduler.config.maxRunningSeqs :=
    Nat.le_of_add_right_le hslots.length_le
  have hcache : s.running.length ≤ s.kvCache.maxSequences :=
    length_le_maxSeqs hslots.wf hslots.nodup_running hslots.current_handles
  unfold mayAdmit at hfull
  rw [Bool.and_eq_true, decide_eq_true_eq, decide_eq_true_eq, hallocated] at hfull
  omega

/-- **Admission stops only when the batch is full or no request is live.** -/
theorem admission_ends {late : List ClientId} (hslots : Slots scheduler origin s.pc s.running s.kvCache)
    (hpc : s.pc = .admission) (hnext : next scheduler late s = some s') (hend : s'.pc = .evict 0) :
    s'.running.length = min scheduler.config.maxRunningSeqs s'.kvCache.maxSequences ∨
      (s.queue.tryPop (s.isOpen late)).1 = none ∧ s'.queue.requests = [] := by
  rw [next_admission hpc hnext] at hend ⊢
  split at hend
  · rename_i hroom
    right
    rw [if_pos hroom]
    unfold tryPop at hend ⊢
    rcases RequestQueue.tryPop_cases (s.isOpen late) s.queue with
      ⟨hpop, hempty⟩ | ⟨req, rest, hpop, -⟩
    · rw [hpop]
      exact ⟨rfl, hempty⟩
    · rw [hpop] at hend
      cases hend
  · rename_i hfull
    left
    rw [if_neg hfull]
    change s.running.length = min _ s.kvCache.maxSequences
    exact length_eq_of_full hslots hpc hfull

theorem settled_admission {late : List ClientId}
    (hslots : Slots scheduler origin s.pc s.running s.kvCache) (hpc : s.pc = .admission)
    (hnext : next scheduler late s = some s') : Settled scheduler s' s'.pc := by
  have hends := admission_ends hslots hpc hnext
  have hnotDone : ∀ seq ∈ s.running, seq.isDone = false := by
    apply hslots.all_notDone
    rw [hpc]
    exact fun _ ↦ trivial
  rw [next_admission hpc hnext] at hends ⊢
  split at hends
  · rename_i hroom
    rw [if_pos hroom]
    unfold tryPop at hends ⊢
    rcases RequestQueue.tryPop_cases (s.isOpen late) s.queue with
      ⟨hpop, hempty⟩ | ⟨req, rest, hpop, -⟩
    · rw [hpop]
      exact ⟨hnotDone, Or.inl hempty⟩
    · rw [hpop]
      trivial
  · rename_i hfull
    have hlength := length_eq_of_full hslots hpc hfull
    rw [if_neg hfull]
    exact ⟨hnotDone, Or.inr hlength⟩

/-- An empty batch after admission means that nothing was left in the queue. -/
theorem settled_evictAt {index : ℕ} (hrunning : 1 ≤ scheduler.config.maxRunningSeqs)
    (hcache : 1 ≤ s.kvCache.maxSequences) (hsettled : Settled scheduler s (.evict index))
    (hslots : Slots scheduler origin s.pc s.running s.kvCache)
    (hfollowing : Following scheduler maxSeqLen s) (hpc : s.pc = .evict index) :
    Settled scheduler (evictAt scheduler index s) (evictAt scheduler index s).pc := by
  cases hseq : s.running[index]? with
  | some seq =>
      rw [evictAt_of_following hfollowing hslots hpc hseq]
      exact hsettled
  | none =>
      obtain ⟨hnotDone, hfilled⟩ := hsettled
      have hkept : s.running.filter (fun seq ↦ !seq.isDone) = s.running :=
        List.filter_eq_self.mpr fun seq hseq ↦ by rw [hnotDone seq hseq]; rfl
      rw [evictAt_end hseq]
      cases hempty : s.reapDoneSequences.running.isEmpty with
      | false => trivial
      | true =>
          change (s.running.filter fun seq ↦ !seq.isDone).isEmpty = true at hempty
          rw [hkept, List.isEmpty_iff] at hempty
          have hqueue : s.queue.requests = [] := by
            apply hfilled.resolve_right
            intro hlength
            rw [hempty, List.length_nil] at hlength
            omega
          exact ⟨hqueue, hkept.trans hempty⟩

theorem draining_next {late : List ClientId} (hrunning : 1 ≤ scheduler.config.maxRunningSeqs)
    (hcache : 1 ≤ s.kvCache.maxSequences) (hdraining : Draining scheduler s)
    (hslots : Slots scheduler origin s.pc s.running s.kvCache)
    (hfollowing : Following scheduler maxSeqLen s) (hnext : next scheduler late s = some s') :
    Draining scheduler s' := by
  refine ⟨(shutdown_next hnext).trans hdraining.noShutdown, ?_⟩
  by_cases hadmission : s.pc = .admission
  · exact settled_admission hslots hadmission hnext
  by_cases hidle : s.pc = .idleCheck
  · have hsettled := hdraining.settled
    rw [hidle] at hsettled
    rw [next_idleCheck hidle hsettled.1 hnext]
    exact hsettled
  have hsettled := hdraining.settled
  cases schedStep_of_next hnext with
  | stop _ hshutdown =>
      rw [hdraining.noShutdown] at hshutdown
      cases hshutdown
  | enter _ => trivial
  | @endLoop site _ _ => cases site <;> trivial
  | @responseDone site _ _ _ _ => cases site <;> trivial
  | responseWanted _ _ _ => trivial
  | @closed site _ _ _ => cases site <;> trivial
  | @stillOpen site _ _ _ => cases site <;> trivial
  | full hpc => exact absurd hpc hadmission
  | tryPop hpc _ => exact absurd hpc hadmission
  | admitRequest _ =>
      unfold admitRequest
      split
      · trivial
      · split <;> trivial
  | prefill _ =>
      unfold prefill
      split <;> trivial
  | evict hpc =>
      rw [hpc] at hsettled
      exact settled_evictAt hrunning hcache hsettled hslots hfollowing hpc
  | park hpc _ => exact absurd hpc hidle
  | resume hpc => exact absurd hpc hidle
  | wake hpc _ =>
      rw [hpc] at hsettled
      exact hsettled
  | forward _ =>
      unfold forward
      split <;> trivial
  | failBatch _ =>
      unfold failBatchAt
      split <;> trivial
  | sampleToken hpc =>
      have hadvances := advances_of_following hslots hfollowing hpc
      unfold sampleToken
      split
      · trivial
      · rename_i seq hseq
        split
        · trivial
        · rename_i row _
          split
          · rename_i hnone
            have hsome := hadvances seq hseq row
            rw [hnone] at hsome
            cases hsome
          · dsimp only
            split <;> trivial
  | sendItems _ =>
      unfold sendItems
      split <;> trivial
  | closeQueue hpc | answerQueued hpc | answerRunning hpc =>
      rw [hpc] at hsettled
      exact hsettled.elim

/-- Neither about to look into the queue nor on the way out. -/
def Pc.Working : Pc α → Prop
  | idleCheck | closeQueue | answerQueued _ | answerRunning | returned | panicked => False
  | _ => True

/-- A step of the scheduler lowers the rank, or it is the one that begins a shutdown. -/
theorem rank_schedStep {late : List ClientId} (hworking : s.pc.Working)
    (hslots : Slots scheduler origin s.pc s.running s.kvCache)
    (hplaced : Placed s.pc s.running s.queue) (hfollowing : Following scheduler maxSeqLen s)
    (hstep : SchedStep scheduler late s s') :
    s'.rank < s.rank ∨ s.shutdown = true ∧ s'.pc = .closeQueue := by
  have hleft := eachLeft_of_following hslots hfollowing
  cases hstep with
  | stop _ hshutdown => exact Or.inr ⟨hshutdown, rfl⟩
  | enter hpc =>
      left
      apply rank_lt_of_potential
      rw [potential_eq _ hpc rfl rfl, potential_eq (.checkDone (.removing 0)) rfl rfl rfl]
      exact Nat.lt_succ_self _
  | endLoop hpc hclient => exact Or.inl (rank_endLoop hpc hclient)
  | responseDone hpc hclient _ =>
      exact Or.inl (rank_abandon s (Or.inl hpc) hleft hclient rfl rfl rfl)
  | @responseWanted site client hpc _ _ =>
      left
      refine rank_lt_of_withinRow ?_ (Nat.le_refl _) ?_ ?_ ?_
      · rw [State.potential, State.potential, hpc]
        exact Nat.le_refl _
      · rw [hpc]
        exact Nat.le_refl _
      · rw [hpc]
        exact Nat.le_refl _
      · rw [hpc]
        exact Nat.lt_succ_self 2
  | @closed site client hpc _ =>
      rw [hpc] at hplaced
      exact Or.inl
        (rank_abandon (s.recordCancelled [client]) (Or.inr hpc) hleft hplaced rfl rfl rfl)
  | stillOpen hpc _ =>
      rw [hpc] at hplaced
      exact Or.inl (rank_proceed hpc hplaced)
  | full hpc =>
      left
      refine rank_lt_of_phase ?_ (Nat.le_refl _) ?_
      · exact (potential_eq _ hpc rfl rfl).ge
      · rw [hpc]
        exact (by decide : 3 < 9)
  | tryPop hpc _ => exact Or.inl (rank_tryPop late hpc)
  | admitRequest hpc => exact Or.inl (rank_admitRequest scheduler hpc)
  | prefill hpc => exact Or.inl (rank_prefill hpc)
  | evict hpc => exact Or.inl (rank_evictAt hpc fun _ ↦ evictAt_of_following hfollowing hslots hpc)
  | wake hpc hpermit =>
      left
      apply rank_lt_of_wakeups
      · exact (potential_eq _ hpc rfl rfl).ge
      · rw [State.wakeups, State.wakeups, hpermit]
        exact Nat.lt_succ_self _
  | forward hpc =>
      rw [hpc] at hplaced
      exact Or.inl (rank_forward hpc hplaced)
  | failBatch hpc => exact Or.inl (rank_failBatchAt hpc hleft)
  | sampleToken hpc =>
      rw [hpc] at hplaced
      exact Or.inl
        (rank_sampleToken hpc hplaced hleft (advances_of_following hslots hfollowing hpc))
  | sendItems hpc => exact Or.inl (rank_sendItems hpc)
  | park hpc _ | resume hpc | closeQueue hpc | answerQueued hpc | answerRunning hpc =>
      rw [hpc] at hworking
      exact hworking.elim

/-- **Every step of the scheduler lowers the rank.** -/
theorem rank_next {late : List ClientId} (hdraining : Draining scheduler s)
    (hslots : Slots scheduler origin s.pc s.running s.kvCache)
    (hplaced : Placed s.pc s.running s.queue) (hfollowing : Following scheduler maxSeqLen s)
    (hnext : next scheduler late s = some s') : s'.rank < s.rank := by
  have hsettled := hdraining.settled
  by_cases hidle : s.pc = .idleCheck
  · rw [hidle] at hsettled
    rw [next_idleCheck hidle hsettled.1 hnext]
    refine rank_lt_of_phase ?_ (Nat.le_refl _) ?_
    · exact (potential_eq _ hidle rfl rfl).ge
    · rw [hidle]
      exact Nat.one_pos
  have hworking : s.pc.Working := by
    cases hpc : s.pc with
    | idleCheck => exact hidle hpc
    | closeQueue | answerQueued _ | answerRunning | returned | panicked =>
        rw [hpc] at hsettled
        exact hsettled.elim
    | _ => trivial
  refine (rank_schedStep hworking hslots hplaced hfollowing (schedStep_of_next hnext)).resolve_right ?_
  rw [hdraining.noShutdown]
  exact fun hstop ↦ absurd hstop.1 Bool.false_ne_true

/-- The steps of the others neither raise the rank nor lead the scheduler astray. -/
theorem Draining.other {action : Action α} (hdraining : Draining scheduler s)
    (hallowed : Undisturbed s action) (hother : ∀ late, action ≠ .sched late)
    (hstep : step scheduler action s = some s') : Draining scheduler s' ∧ s'.rank ≤ s.rank := by
  cases step_cases hstep with
  | @sched late _ _ => exact absurd rfl (hother late)
  | schedShutdown _ hshutdown =>
      rw [hdraining.noShutdown] at hshutdown
      cases hshutdown
  | refuse _ _ => exact hallowed.elim
  | accept _ _ _ => exact hallowed.elim
  | notify hpending =>
      have hwakeups : 2 * (s.pendingNotifies - 1) + 1 < 2 * s.pendingNotifies := by omega
      refine ⟨⟨hdraining.noShutdown, hdraining.settled⟩, le_of_lt (rank_lt_of_wakeups (Nat.le_refl _) ?_)⟩
      exact Nat.lt_add_right _ hwakeups
  | client _ => exact ⟨⟨hdraining.noShutdown, hdraining.settled⟩, le_refl _⟩
  | shutdown => exact hallowed.elim

omit [Kernels α] in
/-- At the head of the loop nothing is done, and the credit is all there. -/
theorem potential_loopHead [Zero α] (hslots : Slots scheduler origin s.pc s.running s.kvCache)
    (hpc : s.pc = .loopHead) : s.potential = s.load + 1 := by
  have hnotDone : ∀ seq ∈ s.running, seq.isDone = false := by
    apply hslots.all_notDone
    rw [hpc]
    exact fun _ ↦ trivial
  rw [potential_eq _ hpc rfl rfl, work_eq_runningLoad hnotDone]
  rfl

/-- Leaving the head of the loop costs the credit. -/
theorem potential_leave {late : List ClientId} (hpc : s.pc = .loopHead) (hshutdown : s.shutdown = false)
    (hnext : next scheduler late s = some s') : s'.potential + 1 = s.potential := by
  unfold next at hnext
  rw [hpc, hshutdown] at hnext
  obtain rfl := Option.some.inj hnext
  rw [potential_eq _ hpc rfl rfl]
  exact congrArg (· + 1) (potential_eq (.checkDone (.removing 0)) rfl rfl rfl)

omit [Kernels α] in
/-- A load of nothing. -/
theorem empty_of_load (hleft : EachLeft s) (hpc : s.pc = .loopHead) (hload : s.load = 0) :
    s.queue.requests = [] ∧ s.running = [] := by
  obtain ⟨hwaiting, hrunning⟩ := Nat.add_eq_zero_iff.mp hload
  constructor
  · cases hqueue : s.queue.requests with
    | nil => rfl
    | cons req rest =>
        rw [hqueue, waitingLoad_cons] at hwaiting
        omega
  · cases hseqs : s.running with
    | nil => rfl
    | cons seq rest =>
        have hpos : 0 < seq.left := by
          apply hleft 0 seq _ (by rw [hseqs]; rfl)
          rw [hpc]
          trivial
        have hle := left_le_remaining seq
        have hsum : runningLoad (seq :: rest) = seq.remaining + runningLoad rest := List.sum_cons
        rw [hseqs, hsum] at hrunning
        omega

/-- Only a scheduler that waits takes no step. -/
theorem parked_of_stuck (hdraining : Draining scheduler s) (hstuck : next scheduler [] s = none) :
    s.pc = .parked := by
  have hsettled := hdraining.settled
  unfold next at hstuck
  split at hstuck
  case h_2 => split at hstuck <;> cases hstuck
  case h_9 hpc => exact hpc
  case h_17 hpc =>
      rw [hpc] at hsettled
      exact hsettled.elim
  case h_18 hpc =>
      rw [hpc] at hsettled
      exact hsettled.elim
  all_goals cases hstuck

end Runs

/-! ## The load is worked off -/

/-- The steps of the others alone. -/
def Meanwhile (_ : State α) : Action α → Prop
  | .submit _ _ | .shutdown | .sched _ => False
  | .schedShutdown | .notify | .client _ _ => True

variable [Kernels α]

/-- One iteration of the loop: the scheduler leaves the head and comes back to it, and the others
take their steps meanwhile. -/
def Iteration (scheduler : Scheduler α) (s s' : State α) : Prop :=
  s.pc = .loopHead ∧ s'.pc = .loopHead ∧
    ∃ late left, next scheduler late s = some left ∧ Reaches scheduler Undisturbed left s'

inductive Iterations (scheduler : Scheduler α) (s : State α) : ℕ → State α → Prop where
  | none : Iterations scheduler s 0 s
  | more {count : ℕ} {before after : State α} (hbefore : Iterations scheduler s count before)
      (hiteration : Iteration scheduler before after) : Iterations scheduler s (count + 1) after

section Load

variable {scheduler : Scheduler α} {maxSeqs maxSeqLen numLayers nHeads headDim maxDepth : ℕ}
  {capacity : ClientId → ℕ} {s s' : State α}

/-- The reachable states. -/
abbrev Reachable (scheduler : Scheduler α) (maxSeqs maxSeqLen numLayers nHeads headDim maxDepth : ℕ)
    (capacity : ClientId → ℕ) (s : State α) : Prop :=
  Reaches scheduler Anything (init (.new maxSeqs maxSeqLen numLayers nHeads headDim) maxDepth capacity) s

theorem draining_sched {late : List ClientId} (hrunning : 1 ≤ scheduler.config.maxRunningSeqs)
    (hcache : 1 ≤ maxSeqs)
    (hreach : Reachable scheduler maxSeqs maxSeqLen numLayers nHeads headDim maxDepth capacity s)
    (hdraining : Draining scheduler s) (hnext : next scheduler late s = some s') :
    Draining scheduler s' ∧ s'.rank < s.rank := by
  have hslots := slots_reachable hreach
  have hfollowing := following_reachable hreach
  have hseqs : 1 ≤ s.kvCache.maxSequences := hcache.trans_eq hslots.sameShape.maxSeqs_eq.symm
  exact ⟨draining_next hrunning hseqs hdraining hslots hfollowing hnext,
    rank_next hdraining hslots (placed_reachable hreach) hfollowing hnext⟩

/-- Along an undisturbed run the rank only falls. -/
theorem draining_reaches (hrunning : 1 ≤ scheduler.config.maxRunningSeqs) (hcache : 1 ≤ maxSeqs)
    (hreach : Reachable scheduler maxSeqs maxSeqLen numLayers nHeads headDim maxDepth capacity s)
    (hdraining : Draining scheduler s) (hrun : Reaches scheduler Undisturbed s s') :
    Reachable scheduler maxSeqs maxSeqLen numLayers nHeads headDim maxDepth capacity s' ∧
      Draining scheduler s' ∧ s'.rank ≤ s.rank := by
  induction hrun with
  | refl => exact ⟨hreach, hdraining, le_refl _⟩
  | @step before after action hbefore hallowed hnext ih =>
      obtain ⟨hreachBefore, hdrainingBefore, hle⟩ := ih
      have hreachAfter := hreachBefore.step trivial hnext
      by_cases hsched : ∃ late, action = .sched late
      · obtain ⟨late, rfl⟩ := hsched
        obtain ⟨hdrainingAfter, hlt⟩ :=
          draining_sched hrunning hcache hreachBefore hdrainingBefore hnext
        exact ⟨hreachAfter, hdrainingAfter, hlt.le.trans hle⟩
      · push Not at hsched
        obtain ⟨hdrainingAfter, hleAfter⟩ := hdrainingBefore.other hallowed hsched hnext
        exact ⟨hreachAfter, hdrainingAfter, hleAfter.trans hle⟩

omit [Kernels α] in
/-- A loop head from which nothing disturbs the scheduler. -/
theorem draining_loopHead (scheduler : Scheduler α) (hpc : s.pc = .loopHead) (hshutdown : s.shutdown = false) :
    Draining scheduler s := by
  refine ⟨hshutdown, ?_⟩
  rw [hpc]
  trivial

/-- **Every iteration lowers the load.** -/
theorem load_lt_of_iteration (hrunning : 1 ≤ scheduler.config.maxRunningSeqs) (hcache : 1 ≤ maxSeqs)
    (hreach : Reachable scheduler maxSeqs maxSeqLen numLayers nHeads headDim maxDepth capacity s)
    (hshutdown : s.shutdown = false) (hiteration : Iteration scheduler s s') :
    Reachable scheduler maxSeqs maxSeqLen numLayers nHeads headDim maxDepth capacity s' ∧
      s'.shutdown = false ∧ s'.load < s.load := by
  obtain ⟨hpc, hpc', late, left, hnext, hrun⟩ := hiteration
  have hdraining := draining_loopHead scheduler hpc hshutdown
  have hleft : step scheduler (.sched late) s = some left := hnext
  obtain ⟨hdrainingLeft, -⟩ := draining_sched hrunning hcache hreach hdraining hnext
  obtain ⟨hreach', hdraining', hle⟩ :=
    draining_reaches hrunning hcache (hreach.step trivial hleft) hdrainingLeft hrun
  refine ⟨hreach', hdraining'.noShutdown, ?_⟩
  calc s'.load
    _ < s'.load + 1 := Nat.lt_succ_self _
    _ = s'.potential := (potential_loopHead (slots_reachable hreach') hpc').symm
    _ ≤ left.potential := potential_le_of_rank_le hle
    _ ≤ s.load := by
      apply Nat.le_of_succ_le_succ
      exact ((potential_leave hpc hshutdown hnext).trans
        (potential_loopHead (slots_reachable hreach) hpc)).le

theorem load_of_iterations (hrunning : 1 ≤ scheduler.config.maxRunningSeqs) (hcache : 1 ≤ maxSeqs)
    (hreach : Reachable scheduler maxSeqs maxSeqLen numLayers nHeads headDim maxDepth capacity s)
    (hpc : s.pc = .loopHead) (hshutdown : s.shutdown = false) {count : ℕ}
    (hiterations : Iterations scheduler s count s') :
    Reachable scheduler maxSeqs maxSeqLen numLayers nHeads headDim maxDepth capacity s' ∧
      s'.pc = .loopHead ∧ s'.shutdown = false ∧ s'.load + count ≤ s.load := by
  induction hiterations with
  | none => exact ⟨hreach, hpc, hshutdown, Nat.le_refl _⟩
  | @more count before after hbefore hiteration ih =>
      obtain ⟨hreachBefore, -, hshutdownBefore, hle⟩ := ih
      obtain ⟨hreachAfter, hshutdownAfter, hlt⟩ :=
        load_lt_of_iteration hrunning hcache hreachBefore hshutdownBefore hiteration
      refine ⟨hreachAfter, hiteration.2.1, hshutdownAfter, ?_⟩
      omega

/-- **The scheduler does not take steps for ever.** -/
theorem not_forever (hrunning : 1 ≤ scheduler.config.maxRunningSeqs) (hcache : 1 ≤ maxSeqs)
    (hreach : Reachable scheduler maxSeqs maxSeqLen numLayers nHeads headDim maxDepth capacity s)
    (hdraining : Draining scheduler s) {states : ℕ → State α} (hstart : states 0 = s)
    (hsteps : ∀ i, ∃ mid late, Reaches scheduler Meanwhile (states i) mid ∧
      next scheduler late mid = some (states (i + 1))) : False := by
  have hundisturbed : ∀ (s : State α) (action : Action α), Meanwhile s action → Undisturbed s action := by
    intro s action hmeanwhile
    cases action with
    | sched _ | submit _ _ | shutdown => exact hmeanwhile.elim
    | schedShutdown | notify | client _ _ => trivial
  have hfalls : ∀ i,
      Reachable scheduler maxSeqs maxSeqLen numLayers nHeads headDim maxDepth capacity (states i) →
      Draining scheduler (states i) →
      Reachable scheduler maxSeqs maxSeqLen numLayers nHeads headDim maxDepth capacity
          (states (i + 1)) ∧
        Draining scheduler (states (i + 1)) ∧ (states (i + 1)).rank < (states i).rank := by
    intro i hreach hdraining
    obtain ⟨mid, late, hrun, hnext⟩ := hsteps i
    obtain ⟨hreachMid, hdrainingMid, hle⟩ :=
      draining_reaches hrunning hcache hreach hdraining (hrun.mono hundisturbed)
    obtain ⟨hdrainingNext, hlt⟩ := draining_sched hrunning hcache hreachMid hdrainingMid hnext
    have hstep : step scheduler (.sched late) mid = some (states (i + 1)) := hnext
    exact ⟨hreachMid.step trivial hstep, hdrainingNext, hlt.trans_le hle⟩
  have hkept : ∀ i,
      Reachable scheduler maxSeqs maxSeqLen numLayers nHeads headDim maxDepth capacity (states i) ∧
        Draining scheduler (states i) := by
    intro i
    induction i with
    | zero => exact hstart ▸ ⟨hreach, hdraining⟩
    | succ i ih =>
        obtain ⟨hreachNext, hdrainingNext, -⟩ := hfalls i ih.1 ih.2
        exact ⟨hreachNext, hdrainingNext⟩
  exact not_strictAnti_of_wellFoundedLT (fun i ↦ (states i).rank)
    (strictAnti_nat_of_succ_lt fun i ↦ (hfalls i (hkept i).1 (hkept i).2).2.2)

end Load

/-- **The scheduler drains every finite load without spinning.** From the head of the loop in any
reachable state, without submissions and without a shutdown: every iteration lowers the load, so
after as many iterations as the load the queue and `running` are empty; the scheduler waits only
when both are, is never stuck otherwise, and takes no infinite number of steps, whatever the others
do meanwhile. In any run, admission ends with a full batch or with a `try_pop` that has found no
live request. -/
theorem drains_finite_load (scheduler : Scheduler α)
    (maxSeqs maxSeqLen numLayers nHeads headDim maxDepth : ℕ) (capacity : ClientId → ℕ)
    (hrunning : 1 ≤ scheduler.config.maxRunningSeqs) (hcache : 1 ≤ maxSeqs) :
    (∀ s, Reachable scheduler maxSeqs maxSeqLen numLayers nHeads headDim maxDepth capacity s →
      s.pc = .loopHead → s.shutdown = false →
      (∀ s', Iteration scheduler s s' → s'.load < s.load) ∧
      (∀ count s', Iterations scheduler s count s' → s'.load + count ≤ s.load ∧
        (count = s.load → s'.queue.requests = [] ∧ s'.running = [])) ∧
      (∀ s', Reaches scheduler Undisturbed s s' →
        (s'.pc = .idleCheck ∨ s'.pc = .parked → s'.queue.requests = [] ∧ s'.running = []) ∧
        (next scheduler [] s' = none → s'.pc = .parked)) ∧
      ¬ ∃ states : ℕ → State α, states 0 = s ∧ ∀ i, ∃ mid late,
        Reaches scheduler Meanwhile (states i) mid ∧
          next scheduler late mid = some (states (i + 1))) ∧
    ∀ s late s', Reachable scheduler maxSeqs maxSeqLen numLayers nHeads headDim maxDepth capacity s →
      s.pc = .admission → next scheduler late s = some s' → s'.pc = .evict 0 →
      s'.running.length = min scheduler.config.maxRunningSeqs s'.kvCache.maxSequences ∨
        (s.queue.tryPop (s.isOpen late)).1 = none ∧ s'.queue.requests = [] := by
  constructor
  · intro s hreach hpc hshutdown
    have hdraining := draining_loopHead scheduler hpc hshutdown
    refine ⟨fun s' hiteration ↦ ?_, fun count s' hiterations ↦ ?_, fun s' hrun ↦ ?_, ?_⟩
    · exact (load_lt_of_iteration hrunning hcache hreach hshutdown hiteration).2.2
    · obtain ⟨hreach', hpc', -, hle⟩ :=
        load_of_iterations hrunning hcache hreach hpc hshutdown hiterations
      refine ⟨hle, fun hcount ↦ ?_⟩
      have hleft := eachLeft_of_following (slots_reachable hreach') (following_reachable hreach')
      exact empty_of_load hleft hpc' (by omega)
    · obtain ⟨-, hdraining', -⟩ := draining_reaches hrunning hcache hreach hdraining hrun
      refine ⟨fun hidle ↦ ?_, parked_of_stuck hdraining'⟩
      have hsettled := hdraining'.settled
      rcases hidle with hpc' | hpc'
      · rw [hpc'] at hsettled
        exact hsettled
      · rw [hpc'] at hsettled
        exact hsettled
    · rintro ⟨states, hstart, hsteps⟩
      exact not_forever hrunning hcache hreach hdraining hstart hsteps
  · intro s late s' hreach hpc hnext hend
    exact admission_ends (slots_reachable hreach) hpc hnext hend

instance {α : Type} (s : State α) (action : Action α) : Decidable (Undisturbed s action) :=
  match action with
  | .submit _ _ | .shutdown => isFalse id
  | .sched _ | .schedShutdown | .notify | .client _ _ => isTrue trivial

/-- Four requests wait: the second one asks for more than the limit, and the client of the third one
has gone away. -/
def tinyLoaded : State ℚ :=
  (Transition.run (step tinyGpt2Scheduler) Anything
    [.submit ⟨"a", [1], shareConfig 8 2, 0, 0, 0⟩ [],
      .submit ⟨"b", [0, 1], shareConfig 7 9, 1, 0, 0⟩ [],
      .submit ⟨"c", [1, 1], shareConfig 9 3, 2, 0, 0⟩ [],
      .submit ⟨"d", [0], shareConfig 9 3, 3, 0, 0⟩ [], .client 2 .dropReceiver]
    tinyGpt2Start).getD tinyGpt2Start

def tinyLeft : State ℚ := (next tinyGpt2Scheduler [] tinyLoaded).getD tinyLoaded

/-- One iteration later. -/
def tinyBack : State ℚ :=
  (Transition.run (step tinyGpt2Scheduler) Undisturbed (List.replicate 39 (.sched [])) tinyLeft).getD
    tinyLeft

/-- Nothing is left to do. -/
def tinyParked : State ℚ :=
  (Transition.run (step tinyGpt2Scheduler) Undisturbed (List.replicate 83 (.sched []))
    tinyLoaded).getD tinyLoaded

theorem drains_finite_load_tinyLoaded :
    (tinyLoaded.load = 21 ∧ tinyBack.load < tinyLoaded.load) ∧
      tinyBack.running.map Sequence.client = [0, 3] ∧
      tinyBack.history.resolved.map Resolved.client = [2, 1] ∧
      tinyParked.pc = .parked ∧ tinyParked.queue.requests = [] ∧ tinyParked.running = [] := by
  have hreach : Reachable tinyGpt2Scheduler 2 8 1 1 1 4 (fun _ ↦ 5) tinyLoaded :=
    Transition.reaches_getD_run (by decide +kernel) tinyGpt2Start
  have hpc : tinyBack.pc = .loopHead := by
    have hhead : (match tinyBack.pc with
      | .loopHead => true
      | _ => false) = true := by decide +kernel
    generalize tinyBack.pc = pc at hhead ⊢
    cases pc with
    | loopHead => rfl
    | _ => cases hhead
  have hiteration : Iteration tinyGpt2Scheduler tinyLoaded tinyBack :=
    ⟨rfl, hpc, [], tinyLeft, rfl, Transition.reaches_getD_run (by decide +kernel) tinyLeft⟩
  have hrun : Reaches tinyGpt2Scheduler Undisturbed tinyLoaded tinyParked :=
    Transition.reaches_getD_run (by decide +kernel) tinyLoaded
  obtain ⟨hdecreases, -, hrests, -⟩ := (drains_finite_load tinyGpt2Scheduler 2 8 1 1 1 4
    (fun _ ↦ 5) (by decide) (by decide)).1 tinyLoaded hreach rfl rfl
  obtain ⟨hempty, hstuck⟩ := hrests tinyParked hrun
  have hparked := hstuck (Option.isNone_iff_eq_none.mp (by decide +kernel))
  exact ⟨⟨by decide +kernel, hdecreases tinyBack hiteration⟩, by decide +kernel, by decide +kernel,
    hparked, hempty (Or.inr hparked)⟩

end Scheduler

end HotBatch
