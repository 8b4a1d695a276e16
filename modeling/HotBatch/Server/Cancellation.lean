import HotBatch.Scheduler.Cancellation
import HotBatch.Server.NaiveRun

/-!
# Cancellation in the naive task, and in both engines

The naive task looks at `response_done` after every pass but at the receiver only at the head of its
loop, so a dropped receiver may cost it the pass that follows the prefill check and the token sampled
from a pass that is done. It never starts a second pass without looking, and it gives the model back
only when its slot is free.
-/

namespace HotBatch

namespace Naive

variable {α : Type}

/-- A step without condition. -/
def Anything : State α → Action → Prop := fun _ _ ↦ True

instance (s : State α) (action : Action) : Decidable (Anything s action) := isTrue trivial

/-- The receiver has been dropped, or the response is done. -/
def Signalled (s : State α) : Prop :=
  s.client.responseDone = true ∨ s.client.receiverOpen = false

namespace Pc

/-- What the task serves, from `Sequence::new` until it returns. -/
def serving : Pc α → Option (Serving α)
  | checkShutdown stage | checkDone stage | checkClosed stage => stage.serving
  | prefill serving | forward serving | sampleToken serving _ | sendItems serving _ => some serving
  | acquire | create | answer _ | returned | panicked => none

/-- The task owns the mutex around the model. -/
def HoldsModel : Pc α → Prop
  | checkShutdown stage | checkDone stage | checkClosed stage => ¬ stage.IsOutside
  | create | prefill _ | forward _ | sampleToken _ _ | sendItems _ _ | panicked => True
  | acquire | answer _ | returned => False

/-- The task is about to start a pass. -/
def AtPass : Pc α → Prop
  | prefill _ | forward _ => True
  | _ => False

/-- The task has returned, or is about to without its sequence. -/
def IsOver : Pc α → Prop
  | answer _ | returned => True
  | _ => False

/-- The task will look at both signals before it starts a pass. At the second look only a receiver
that is `gone` by now is noticed. -/
def WillCheck (gone : Prop) : Pc α → Prop
  | checkShutdown (.prefilled _) | checkShutdown (.looping _) => True
  | checkDone (.prefilled _) | checkDone (.looping _) => True
  | checkClosed (.looping _) => gone
  | sendItems _ _ => True
  | _ => False

/-- A pass is done, and its token may be sampled. -/
def Sampling : Pc α → Prop
  | checkShutdown (.passed _ _) | checkDone (.passed _ _) | sampleToken _ _ => True
  | _ => False

/-- Whoever serves a sequence has the model and has not ended. -/
theorem holdsModel_of_serving {pc : Pc α} {serving : Serving α}
    (hserving : pc.serving = some serving) : pc.HoldsModel ∧ ¬ pc.IsOver := by
  cases pc with
  | checkShutdown stage | checkDone stage | checkClosed stage =>
      cases stage with
      | entry | waiting | locked => cases hserving
      | created _ | prefilled _ | looping _ | passed _ _ => exact ⟨id, id⟩
  | prefill _ | forward _ | sampleToken _ _ | sendItems _ _ => exact ⟨trivial, id⟩
  | acquire | create | answer _ | returned | panicked => cases hserving

theorem WillCheck.mono {gone gone' : Prop} (hgone : gone → gone') {pc : Pc α}
    (hwill : pc.WillCheck gone) : pc.WillCheck gone' := by
  cases pc with
  | checkClosed stage =>
      cases stage with
      | looping _ => exact hgone hwill
      | _ => exact hwill
  | checkShutdown stage | checkDone stage => cases stage <;> exact hwill
  | _ => exact hwill

end Pc

/-! ## The tenure of the model -/

/-- The task owns the model wherever it is inside the mutex, and ends only when it returns. -/
structure State.Underway (s : State α) : Prop where
  owner : s.pc.HoldsModel → s.owner = .task
  ended : ¬ s.pc.IsOver → s.history.ended = none

section Step

variable {model : SmallTransformer α} {req : GenerationRequest α} {s s' : State α}

theorem underway_init (capacity : ℕ) : (init capacity : State α).Underway :=
  ⟨fun hholds ↦ absurd trivial hholds, fun _ ↦ rfl⟩

theorem underway_leave (serving : Option (Serving α)) (pc : Pc α) (hover : pc.IsOver) (s : State α) :
    (s.leave serving pc).Underway where
  owner hholds := by
    cases pc with
    | answer _ | returned => cases hholds
    | _ => cases hover
  ended hnotOver := absurd hover hnotOver

theorem underway_goto (hunderway : s.Underway) {pc : Pc α} (hpc : pc.HoldsModel → s.pc.HoldsModel)
    (hnotOver : ¬ s.pc.IsOver) : (s.goto pc).Underway :=
  ⟨fun hholds ↦ hunderway.owner (hpc hholds), fun _ ↦ hunderway.ended hnotOver⟩

theorem underway_abandon (stage : Stage α) (s : State α) : (abandon stage s).Underway := by
  cases stage <;> exact underway_leave _ .returned trivial s

theorem underway_enterLoop (howner : s.owner = .task) (hended : s.history.ended = none)
    (serving : Serving α) : (enterLoop serving s).Underway := by
  unfold enterLoop
  split
  · exact underway_leave _ .returned trivial s
  · exact ⟨fun _ ↦ howner, fun _ ↦ hended⟩

theorem underway_endTurn (howner : s.owner = .task) (hended : s.history.ended = none)
    (serving : Serving α) : (endTurn serving s).Underway := by
  apply underway_enterLoop
  · exact howner
  · exact hended

theorem underway_proceed (hunderway : s.Underway) {stage : Stage α}
    (hholds : ¬ stage.IsOutside → s.pc.HoldsModel) (hnotOver : ¬ s.pc.IsOver) :
    (proceed stage s).Underway := by
  cases stage with
  | entry => exact underway_goto hunderway (fun hinside ↦ absurd trivial hinside) hnotOver
  | waiting => exact underway_goto hunderway False.elim hnotOver
  | locked | created _ | looping _ | passed _ _ =>
      exact underway_goto hunderway (fun _ ↦ hholds id) hnotOver
  | prefilled serving =>
      exact underway_enterLoop (hunderway.owner (hholds id)) (hunderway.ended hnotOver) _

theorem underway_sampleToken [Kernels α] (hunderway : s.Underway) {serving : Serving α}
    {logits : List (LogitRow α)} (hpc : s.pc = .sampleToken serving logits) :
    (sampleToken serving logits s).Underway := by
  have howner : s.owner = .task := hunderway.owner (by rw [hpc]; trivial)
  have hended : s.history.ended = none := hunderway.ended (by rw [hpc]; exact id)
  unfold sampleToken
  split
  · exact underway_leave _ (.answer _) trivial s
  split
  · exact ⟨fun _ ↦ howner, fun _ ↦ hended⟩
  dsimp only
  split
  · exact ⟨fun _ ↦ howner, fun _ ↦ hended⟩
  · apply underway_endTurn
    · exact howner
    · exact hended

theorem underway_task [Kernels α] (hunderway : s.Underway) (hstep : TaskStep model req s s') :
    s'.Underway := by
  cases hstep with
  | shutdown _ _ => exact underway_leave _ (.answer _) trivial s
  | goesOn hpc _ =>
      apply underway_goto hunderway
      · rw [hpc]
        exact id
      · rw [hpc]
        exact id
  | responseDone _ _ => exact underway_abandon _ s
  | looksAtReceiver hpc _ _ =>
      apply underway_goto hunderway
      · rw [hpc]
        exact id
      · rw [hpc]
        exact id
  | responseWanted hpc _ _ =>
      apply underway_proceed hunderway
      · rw [hpc]
        exact id
      · rw [hpc]
        exact id
  | closed _ _ => exact underway_abandon _ _
  | stillOpen hpc _ =>
      apply underway_proceed hunderway
      · rw [hpc]
        exact id
      · rw [hpc]
        exact id
  | acquire hpc =>
      have hended : s.history.ended = none := hunderway.ended (by rw [hpc]; exact id)
      unfold acquire
      split
      · exact ⟨fun _ ↦ rfl, fun _ ↦ hended⟩
      · exact ⟨fun hholds ↦ absurd trivial hholds, fun _ ↦ hended⟩
  | create hpc =>
      have howner : s.owner = .task := hunderway.owner (by rw [hpc]; trivial)
      have hended : s.history.ended = none := hunderway.ended (by rw [hpc]; exact id)
      unfold create
      split
      · exact underway_leave _ (.answer _) trivial s
      · exact ⟨fun _ ↦ howner, fun _ ↦ hended⟩
  | prefill hpc =>
      unfold prefill
      split
      · exact underway_leave _ (.answer _) trivial s
      · apply underway_goto hunderway
        · rw [hpc]
          exact fun _ ↦ trivial
        · rw [hpc]
          exact id
  | forward hpc =>
      unfold forward
      split
      · exact underway_leave _ (.answer _) trivial s
      · apply underway_goto hunderway
        · rw [hpc]
          exact fun _ ↦ trivial
        · rw [hpc]
          exact id
  | sampleToken hpc => exact underway_sampleToken hunderway hpc
  | @sendItems serving items hpc =>
      have howner : s.owner = .task := hunderway.owner (by rw [hpc]; trivial)
      have hended : s.history.ended = none := hunderway.ended (by rw [hpc]; exact id)
      cases items with
      | nil => exact underway_endTurn howner hended serving
      | cons item rest => exact ⟨fun _ ↦ howner, fun _ ↦ hended⟩
  | answer _ => exact ⟨False.elim, fun hnotOver ↦ absurd trivial hnotOver⟩

theorem underway_step [Kernels α] {action : Action} (hunderway : s.Underway)
    (hstep : step model req action s = some s') : s'.Underway := by
  cases action with
  | task => exact underway_task hunderway (taskStep_of_next hstep)
  | client action =>
      obtain ⟨after, -, rfl⟩ := Option.map_eq_some_iff.mp hstep
      exact ⟨hunderway.owner, hunderway.ended⟩
  | shutdown =>
      obtain rfl := Option.some.inj hstep
      exact ⟨hunderway.owner, hunderway.ended⟩
  | lockModel =>
      simp only [step] at hstep
      split at hstep
      · rename_i hnobody
        obtain rfl := Option.some.inj hstep
        refine ⟨fun hholds ↦ ?_, hunderway.ended⟩
        have howner := hunderway.owner hholds
        rw [hnobody] at howner
        cases howner
      · cases hstep
  | unlockModel =>
      simp only [step] at hstep
      split at hstep
      · rename_i hother
        obtain rfl := Option.some.inj hstep
        refine ⟨fun hholds ↦ ?_, hunderway.ended⟩
        have howner := hunderway.owner hholds
        rw [hother] at howner
        cases howner
      · cases hstep

/-! ## After the signal -/

abbrev State.Gone (s : State α) : Prop := s.client.receiverOpen = false

/-- What holds of the sequence of a task that has been signalled: `bound` tokens at that time, and
perhaps a pass since then. -/
structure Stopping (handle : KvHandle) (bound : ℕ) (passed gone : Prop) (pc : Pc α) (seq : Sequence α) :
    Prop where
  handle_eq : seq.kvHandle = handle
  tokens_le : seq.generatedTokens.length ≤ bound + 1
  lastToken : pc.WillCheck gone ∨ seq.generatedTokens.length ≤ bound
  lastPass : passed → pc.WillCheck gone ∨ pc.Sampling

/-- What the task leaves behind. -/
structure Stopped (handle : KvHandle) (bound : ℕ) (ended : Serving α) : Prop where
  handle_eq : ended.seq.kvHandle = handle
  tokens_le : ended.seq.generatedTokens.length ≤ bound + 1
  released : ¬ ended.kvCache.IsCurrentHandle handle

/-- The task still has the model and its sequence, or it has ended, or its thread is gone. -/
inductive Course (handle : KvHandle) (bound : ℕ) (passed : Prop) (s : State α) : Prop
  | serving {serving : Serving α} (hserving : s.pc.serving = some serving) (howner : s.owner = .task)
      (hended : s.history.ended = none)
      (hstopping : Stopping handle bound passed s.Gone s.pc serving.seq) :
      Course handle bound passed s
  | atEnd {ended : Serving α} (hover : s.pc.IsOver) (hended : s.history.ended = some ended)
      (hstopped : Stopped handle bound ended) : Course handle bound passed s
  | panicked (hpc : s.pc = .panicked) (howner : s.owner = .task) (hended : s.history.ended = none) :
      Course handle bound passed s

section Course

variable {handle : KvHandle} {bound : ℕ} {passed passed' gone : Prop} {serving after : Serving α}

/-- A move of the task that keeps the tokens. -/
theorem Stopping.move {pc pc' : Pc α} {seq seq' : Sequence α}
    (hstopping : Stopping handle bound passed gone pc seq) (hhandle : seq'.kvHandle = seq.kvHandle)
    (htokens : seq'.generatedTokens = seq.generatedTokens)
    (hwill : pc.WillCheck gone → pc'.WillCheck gone)
    (hsampling : pc.Sampling → pc'.WillCheck gone ∨ pc'.Sampling) :
    Stopping handle bound passed gone pc' seq' where
  handle_eq := hhandle.trans hstopping.handle_eq
  tokens_le := htokens ▸ hstopping.tokens_le
  lastToken := htokens ▸ hstopping.lastToken.imp_left hwill
  lastPass hpassed := (hstopping.lastPass hpassed).elim (fun hnow ↦ Or.inl (hwill hnow)) hsampling

/-- The slot is freed on every way out. -/
theorem course_leave (hhandle : after.seq.kvHandle = handle)
    (htokens : after.seq.generatedTokens.length ≤ bound + 1) (pc : Pc α) (hover : pc.IsOver)
    (s : State α) : Course handle bound passed (s.leave (some after) pc) := by
  refine .atEnd hover rfl ⟨hhandle, htokens, ?_⟩
  change ¬ (after.kvCache.free after.seq.kvHandle).IsCurrentHandle handle
  rw [SlabKvCache.isCurrentHandle_free, hhandle]
  exact fun hcurrent ↦ hcurrent.2 rfl

theorem course_abandon {stage : Stage α} (hserving : stage.serving = some serving)
    (hhandle : serving.seq.kvHandle = handle)
    (htokens : serving.seq.generatedTokens.length ≤ bound + 1) :
    Course handle bound passed (abandon stage s) := by
  have hcancelled : Course handle bound passed (s.leave (some serving.cancel) .returned) := by
    refine course_leave ?_ ?_ .returned trivial s
    · exact serving.seq.cancel_kvHandle.trans hhandle
    · change serving.seq.cancel.generatedTokens.length ≤ bound + 1
      rwa [Sequence.cancel_generatedTokens]
  cases stage with
  | entry | waiting | locked => cases hserving
  | created _ | prefilled _ =>
      obtain rfl := Option.some.inj hserving
      exact course_leave hhandle htokens .returned trivial s
  | looping _ | passed _ _ =>
      obtain rfl := Option.some.inj hserving
      exact hcancelled

/-- The head of the loop is in front of both looks. -/
theorem course_enterLoop (howner : s.owner = .task) (hended : s.history.ended = none)
    (hhandle : serving.seq.kvHandle = handle)
    (htokens : serving.seq.generatedTokens.length ≤ bound + 1) :
    Course handle bound passed (enterLoop serving s) := by
  unfold enterLoop
  split
  · exact course_leave hhandle htokens .returned trivial s
  · exact .serving rfl howner hended
      ⟨hhandle, htokens, Or.inl trivial, fun _ ↦ Or.inl trivial⟩

theorem course_endTurn (howner : s.owner = .task) (hended : s.history.ended = none)
    (hhandle : serving.seq.kvHandle = handle)
    (htokens : serving.seq.generatedTokens.length ≤ bound + 1) :
    Course handle bound passed (endTurn serving s) := by
  apply course_enterLoop
  · exact howner
  · exact hended
  · exact hhandle
  · exact htokens

/-- Behind a look that has noticed nothing. -/
theorem course_proceed {stage : Stage α} (hserving : stage.serving = some serving)
    (howner : s.owner = .task) (hended : s.history.ended = none)
    (hstopping : Stopping handle bound passed s.Gone s.pc serving.seq)
    (hpc : s.pc = .checkDone stage ∧ stage.readsClosed = false ∨
      s.pc = .checkClosed stage ∧ ¬ s.Gone) : Course handle bound passed (proceed stage s) := by
  cases stage with
  | entry | waiting | locked => cases hserving
  | created _ =>
      obtain rfl := Option.some.inj hserving
      refine .serving rfl howner hended (hstopping.move rfl rfl ?_ ?_)
      · rcases hpc with ⟨hpc, -⟩ | ⟨hpc, -⟩ <;> exact hpc ▸ False.elim
      · rcases hpc with ⟨hpc, -⟩ | ⟨hpc, -⟩ <;> exact hpc ▸ False.elim
  | prefilled held =>
      obtain rfl := Option.some.inj hserving
      apply course_enterLoop howner hended
      · exact held.seq.markRunning_kvHandle.trans hstopping.handle_eq
      · rw [Sequence.markRunning_eq]
        exact hstopping.tokens_le
  | looping _ =>
      obtain rfl := Option.some.inj hserving
      rcases hpc with ⟨-, hreads⟩ | ⟨hpc, hopen⟩
      · cases hreads
      · refine .serving rfl howner hended (hstopping.move rfl rfl ?_ ?_)
        · rw [hpc]
          exact fun hgone ↦ absurd hgone hopen
        · exact hpc ▸ False.elim
  | passed _ logits =>
      obtain rfl := Option.some.inj hserving
      refine .serving rfl howner hended (hstopping.move rfl rfl ?_ fun _ ↦ Or.inr trivial)
      rcases hpc with ⟨hpc, -⟩ | ⟨hpc, -⟩ <;> exact hpc ▸ False.elim

variable [Kernels α]

/-- After the prefill both looks come before the next pass. -/
theorem course_prefill (howner : s.owner = .task) (hended : s.history.ended = none)
    (hhandle : serving.seq.kvHandle = handle)
    (htokens : serving.seq.generatedTokens.length ≤ bound + 1) :
    Course handle bound passed (prefill model serving s) := by
  unfold prefill
  split
  · apply course_leave
    · exact hhandle
    · exact htokens
    · trivial
  · exact .serving rfl howner hended ⟨hhandle, htokens, Or.inl trivial, fun _ ↦ Or.inl trivial⟩

/-- After a decode pass a token may be sampled. -/
theorem course_forward (howner : s.owner = .task) (hended : s.history.ended = none)
    (hhandle : serving.seq.kvHandle = handle)
    (htokens : serving.seq.generatedTokens.length ≤ bound) :
    Course handle bound passed (forward model serving s) := by
  unfold forward
  split
  · apply course_leave
    · exact hhandle
    · exact Nat.le_succ_of_le htokens
    · trivial
  · exact .serving rfl howner hended
      ⟨hhandle, Nat.le_succ_of_le htokens, Or.inr htokens, fun _ ↦ Or.inr trivial⟩

/-- The one step that appends a token. -/
theorem course_sampleToken {logits : List (LogitRow α)} (howner : s.owner = .task)
    (hended : s.history.ended = none) (hhandle : serving.seq.kvHandle = handle)
    (htokens : serving.seq.generatedTokens.length ≤ bound) :
    Course handle bound passed (sampleToken serving logits s) := by
  unfold sampleToken
  split
  · exact course_leave hhandle (Nat.le_succ_of_le htokens) (.answer _) trivial s
  split
  · exact .panicked rfl howner hended
  rename_i tokens stepped hadvance
  obtain ⟨-, -, hsame, -, -, -, hgenerated⟩ := Sequence.advance_frame hadvance
  have hstepped : stepped.generatedTokens.length ≤ bound + 1 := by
    rw [hgenerated, List.length_append]
    exact Nat.add_le_add_right htokens 1
  dsimp only
  split
  · exact .serving rfl howner hended
      ⟨hsame.trans hhandle, hstepped, Or.inl trivial, fun _ ↦ Or.inl trivial⟩
  · apply course_endTurn
    · exact howner
    · exact hended
    · exact stepped.cancel_kvHandle.trans (hsame.trans hhandle)
    · rwa [Sequence.cancel_generatedTokens]

theorem course_task (hsignalled : Signalled s) (hcourse : Course handle bound passed s)
    (hstep : TaskStep model req s s') : Course handle bound passed s' := by
  cases hcourse with
  | atEnd hover hended hstopped =>
      cases hstep with
      | answer _ => exact .atEnd trivial hended hstopped
      | shutdown hpc _ | goesOn hpc _ | responseDone hpc _ | looksAtReceiver hpc _ _
      | responseWanted hpc _ _ | closed hpc _ | stillOpen hpc _ | acquire hpc | create hpc
      | prefill hpc | forward hpc | sampleToken hpc | sendItems hpc =>
          rw [hpc] at hover
          cases hover
  | panicked hpanicked _ _ =>
      cases hstep with
      | shutdown hpc _ | goesOn hpc _ | responseDone hpc _ | looksAtReceiver hpc _ _
      | responseWanted hpc _ _ | closed hpc _ | stillOpen hpc _ | acquire hpc | create hpc
      | prefill hpc | forward hpc | sampleToken hpc | sendItems hpc | answer hpc =>
          cases hpanicked.symm.trans hpc
  | @serving serving hserving howner hended hstopping =>
      have hhandle := hstopping.handle_eq
      have htokens := hstopping.tokens_le
      cases hstep with
      | @shutdown stage hpc _ =>
          rw [hpc] at hserving
          rw [show stage.serving = some serving from hserving]
          exact course_leave hhandle htokens (.answer _) trivial s
      | @goesOn stage hpc _ =>
          rw [hpc] at hserving hstopping
          refine .serving hserving howner hended (hstopping.move rfl rfl ?_ ?_)
          · cases stage <;> exact id
          · cases stage <;> exact Or.inr
      | responseDone hpc _ =>
          rw [hpc] at hserving
          exact course_abandon hserving hhandle htokens
      | @looksAtReceiver stage hpc hdone hreads =>
          have hgone : s.Gone := by
            apply hsignalled.resolve_left
            rw [hdone]
            exact Bool.false_ne_true
          rw [hpc] at hserving
          cases stage with
          | looping held =>
              exact .serving hserving howner hended
                ⟨hhandle, htokens, Or.inl hgone, fun _ ↦ Or.inl hgone⟩
          | entry | waiting | locked => cases hserving
          | created _ | prefilled _ | passed _ _ => cases hreads
      | responseWanted hpc hdone hreads =>
          rw [hpc] at hserving
          exact course_proceed hserving howner hended hstopping (Or.inl ⟨hpc, hreads⟩)
      | closed hpc _ =>
          rw [hpc] at hserving
          exact course_abandon hserving hhandle htokens
      | stillOpen hpc hclosed =>
          rw [hpc] at hserving
          refine course_proceed hserving howner hended hstopping (Or.inr ⟨hpc, fun hgone ↦ ?_⟩)
          rw [Client.isClosed, hgone] at hclosed
          cases hclosed
      | acquire hpc | create hpc | answer hpc =>
          rw [hpc] at hserving
          cases hserving
      | prefill hpc =>
          rw [hpc] at hserving
          obtain rfl := Option.some.inj hserving
          exact course_prefill howner hended hhandle htokens
      | forward hpc =>
          rw [hpc] at hserving hstopping
          obtain rfl := Option.some.inj hserving
          exact course_forward howner hended hhandle (hstopping.lastToken.resolve_left id)
      | sampleToken hpc =>
          rw [hpc] at hserving hstopping
          obtain rfl := Option.some.inj hserving
          exact course_sampleToken howner hended hhandle (hstopping.lastToken.resolve_left id)
      | @sendItems _ items hpc =>
          rw [hpc] at hserving
          obtain rfl := Option.some.inj hserving
          cases items with
          | nil => exact course_endTurn howner hended hhandle htokens
          | cons item rest =>
              exact .serving rfl howner hended
                ⟨hhandle, htokens, Or.inl trivial, fun _ ↦ Or.inl trivial⟩

/-- The connection can only signal more, and nobody takes the model from the task. -/
theorem course_step {action : Action} (hsignalled : Signalled s)
    (hcourse : Course handle bound passed s) (hstep : step model req action s = some s') :
    Signalled s' ∧ Course handle bound passed s' := by
  cases action with
  | task =>
      have htask := taskStep_of_next hstep
      have hframed := framed_task htask
      refine ⟨?_, course_task hsignalled hcourse htask⟩
      unfold Signalled
      rw [hframed.responseDone, hframed.receiverOpen]
      exact hsignalled
  | client action =>
      obtain ⟨after, hact, rfl⟩ := Option.map_eq_some_iff.mp hstep
      obtain ⟨hreceiver, hdone⟩ := Client.act_signals hact
      refine ⟨hsignalled.imp hdone hreceiver, ?_⟩
      cases hcourse with
      | serving hserving howner hended hstopping =>
          refine .serving hserving howner hended
            ⟨hstopping.handle_eq, hstopping.tokens_le, ?_, fun hpassed ↦ ?_⟩
          · exact hstopping.lastToken.imp_left fun hwill ↦ hwill.mono hreceiver
          · exact (hstopping.lastPass hpassed).imp_left fun hwill ↦ hwill.mono hreceiver
      | atEnd hover hended hstopped => exact .atEnd hover hended hstopped
      | panicked hpc howner hended => exact .panicked hpc howner hended
  | shutdown =>
      obtain rfl := Option.some.inj hstep
      refine ⟨hsignalled, ?_⟩
      cases hcourse with
      | serving hserving howner hended hstopping => exact .serving hserving howner hended hstopping
      | atEnd hover hended hstopped => exact .atEnd hover hended hstopped
      | panicked hpc howner hended => exact .panicked hpc howner hended
  | lockModel =>
      simp only [step] at hstep
      split at hstep
      · rename_i hnobody
        obtain rfl := Option.some.inj hstep
        refine ⟨hsignalled, ?_⟩
        cases hcourse with
        | serving _ howner _ _ => cases hnobody.symm.trans howner
        | atEnd hover hended hstopped => exact .atEnd hover hended hstopped
        | panicked _ howner _ => cases hnobody.symm.trans howner
      · cases hstep
  | unlockModel =>
      simp only [step] at hstep
      split at hstep
      · rename_i hother
        obtain rfl := Option.some.inj hstep
        refine ⟨hsignalled, ?_⟩
        cases hcourse with
        | serving _ howner _ _ => cases hother.symm.trans howner
        | atEnd hover hended hstopped => exact .atEnd hover hended hstopped
        | panicked _ howner _ => cases hother.symm.trans howner
      · cases hstep

theorem course_reaches {u : State α} (hsignalled : Signalled s)
    (hcourse : Course handle bound passed s) (hlater : Reaches model req Anything s u) :
    Signalled u ∧ Course handle bound passed u :=
  hlater.invariant (fun _ _ _ _ hboth _ hnext ↦ course_step hboth.1 hboth.2 hnext)
    ⟨hsignalled, hcourse⟩

omit [Kernels α] in
/-- Only the task itself is at a pass. -/
theorem Course.atPass (hcourse : Course handle bound passed s) (hpass : s.pc.AtPass) :
    ∃ serving, (s.pc = .prefill serving ∨ s.pc = .forward serving) ∧ s.owner = .task ∧
      s.history.ended = none ∧ Stopping handle bound passed s.Gone s.pc serving.seq := by
  cases hcourse with
  | @atEnd ended hover _ _ =>
      cases hpc : s.pc with
      | answer _ | returned =>
          rw [hpc] at hpass
          cases hpass
      | _ =>
          rw [hpc] at hover
          cases hover
  | panicked hpc _ _ =>
      rw [hpc] at hpass
      cases hpass
  | serving hserving howner hended hstopping =>
      refine ⟨_, ?_, howner, hended, hstopping⟩
      cases hpc : s.pc with
      | prefill held =>
          rw [hpc] at hserving
          exact Or.inl (congrArg _ (Option.some.inj hserving))
      | forward held =>
          rw [hpc] at hserving
          exact Or.inr (congrArg _ (Option.some.inj hserving))
      | _ =>
          rw [hpc] at hpass
          cases hpass

/-- The pass after which the task looks, or samples its last token and looks then. -/
theorem Course.pass (hcourse : Course handle bound passed s) (hpass : s.pc.AtPass)
    (hnext : next model req s = some s') : Course handle bound True s' := by
  obtain ⟨serving, hpc | hpc, howner, hended, hstopping⟩ := hcourse.atPass hpass
  · have hstep : next model req s = some (prefill model serving s) := by rw [next, hpc]
    obtain rfl := Option.some.inj (hstep.symm.trans hnext)
    exact course_prefill howner hended hstopping.handle_eq hstopping.tokens_le
  · have hstep : next model req s = some (forward model serving s) := by rw [next, hpc]
    obtain rfl := Option.some.inj (hstep.symm.trans hnext)
    rw [hpc] at hstopping
    exact course_forward howner hended hstopping.handle_eq (hstopping.lastToken.resolve_left id)

omit [Kernels α] in
/-- One more pass has been the last. -/
theorem Course.not_atPass (hcourse : Course handle bound True s) : ¬ s.pc.AtPass := by
  intro hpass
  obtain ⟨serving, hpc | hpc, -, -, hstopping⟩ := hcourse.atPass hpass
  · rw [hpc] at hstopping
    exact (hstopping.lastPass trivial).elim id id
  · rw [hpc] at hstopping
    exact (hstopping.lastPass trivial).elim id id

omit [Kernels α] in
theorem Course.tokens_le (hcourse : Course handle bound passed s) {later : Serving α}
    (hlater : s.pc.serving = some later ∨ s.history.ended = some later) :
    later.seq.generatedTokens.length ≤ bound + 1 := by
  cases hcourse with
  | serving hserving _ hended hstopping =>
      rcases hlater with hnow | hend
      · obtain rfl := Option.some.inj (hserving.symm.trans hnow)
        exact hstopping.tokens_le
      · cases hended.symm.trans hend
  | atEnd hover hended hstopped =>
      rcases hlater with hnow | hend
      · exact absurd hover (Pc.holdsModel_of_serving hnow).2
      · obtain rfl := Option.some.inj (hended.symm.trans hend)
        exact hstopped.tokens_le
  | panicked hpc _ hended =>
      rcases hlater with hnow | hend
      · rw [hpc] at hnow
        cases hnow
      · cases hended.symm.trans hend

end Course

end Step

/-! ## Both engines -/

/-- What a signal brings about for the sequence of the task, from the state `s` on: one token more at
most, one pass more at most, and nobody else has the model before the slot is free. -/
structure StopsWithinOneStep [Kernels α] (model : SmallTransformer α) (req : GenerationRequest α)
    (s : State α) (seq : Sequence α) : Prop where
  tokens : ∀ u, Reaches model req Anything s u → ∀ later,
    u.pc.serving = some later ∨ u.history.ended = some later →
      later.seq.generatedTokens.length ≤ seq.generatedTokens.length + 1
  passes : ∀ t t' u, Reaches model req Anything s t → t.pc.AtPass → next model req t = some t' →
    Reaches model req Anything t' u → ¬ u.pc.AtPass
  released : ∀ u, Reaches model req Anything s u → u.owner ≠ .task →
    ∃ ended, u.history.ended = some ended ∧ ended.seq.kvHandle = seq.kvHandle ∧
      ¬ ended.kvCache.IsCurrentHandle seq.kvHandle

/-- A signalled sequence stops within one step of the naive task. -/
theorem stopsWithinOneStep [Kernels α] {model : SmallTransformer α} {req : GenerationRequest α}
    {capacity : ℕ} {s : State α} (hreach : Reaches model req Anything (init capacity) s)
    {serving : Serving α} (hserving : s.pc.serving = some serving) (hsignalled : Signalled s) :
    StopsWithinOneStep model req s serving.seq := by
  have hunderway : s.Underway := hreach.invariant
    (fun _ _ _ _ hbefore _ hnext ↦ underway_step hbefore hnext) (underway_init capacity)
  obtain ⟨hholds, hnotOver⟩ := Pc.holdsModel_of_serving hserving
  have hcourse : Course serving.seq.kvHandle serving.seq.generatedTokens.length False s :=
    .serving hserving (hunderway.owner hholds) (hunderway.ended hnotOver)
      ⟨rfl, Nat.le_succ _, Or.inr (Nat.le_refl _), False.elim⟩
  constructor
  case tokens =>
    intro u hu later hlater
    exact (course_reaches hsignalled hcourse hu).2.tokens_le hlater
  case passes =>
    intro t t' u ht hpass hnext hu
    obtain ⟨hsignalledT, hcourseT⟩ := course_reaches hsignalled hcourse ht
    have htask : step model req .task t = some t' := hnext
    obtain ⟨hsignalledT', -⟩ := course_step hsignalledT hcourseT htask
    exact (course_reaches hsignalledT' (hcourseT.pass hpass hnext) hu).2.not_atPass
  case released =>
    intro u hu hfree
    obtain ⟨-, hafter⟩ := course_reaches hsignalled hcourse hu
    cases hafter with
    | serving _ howner _ _ => exact absurd howner hfree
    | atEnd _ hended hstopped => exact ⟨_, hended, hstopped.handle_eq, hstopped.released⟩
    | panicked _ howner _ => exact absurd howner hfree

end Naive

/-- **Cancellation is observed within one step.** In every run of either engine, from the moment at
which the receiver of a sequence in service is dropped or its `response_done` is cancelled: at most
one token is appended to it, at most one pass that includes it is started, and its slot is free
before any pass after that one. -/
theorem cancellation_within_one_step {α : Type} [Kernels α] (scheduler : Scheduler α)
    (maxSeqs maxSeqLen numLayers nHeads headDim maxDepth : ℕ) (capacity : ClientId → ℕ)
    (model : SmallTransformer α) (req : GenerationRequest α) (room : ℕ) :
    (∀ s, Scheduler.Reaches scheduler Scheduler.Anything
        (Scheduler.init (.new maxSeqs maxSeqLen numLayers nHeads headDim) maxDepth capacity) s →
      ∀ seq ∈ s.inService, Scheduler.Signalled seq.client s →
        Scheduler.StopsWithinOneStep scheduler s seq) ∧
    ∀ s, Naive.Reaches model req Naive.Anything (Naive.init room) s →
      ∀ serving, s.pc.serving = some serving → Naive.Signalled s →
        Naive.StopsWithinOneStep model req s serving.seq :=
  ⟨fun _ hreach _ hseq hsignalled ↦ Scheduler.stopsWithinOneStep hreach hseq hsignalled,
    fun _ hreach _ hserving hsignalled ↦ Naive.stopsWithinOneStep hreach hserving hsignalled⟩

/-- The receiver of the first sequence of the batch is dropped during a decode pass. -/
def tinyDropped : Scheduler.State ℚ :=
  (Transition.run (Scheduler.step Scheduler.tinyGpt2Scheduler) Scheduler.Anything
    [.sched [], .client 1 .dropReceiver] Scheduler.tinyReused).getD Scheduler.tinyReused

/-- The next pass. -/
def tinyAlone : Scheduler.State ℚ :=
  (Transition.run (Scheduler.step Scheduler.tinyGpt2Scheduler) Scheduler.Anything
    (List.replicate 15 (.sched [])) tinyDropped).getD tinyDropped

def tinyAskedAlone : GenerationRequest ℚ := ⟨"a", [1], tinyConfig, 0, 0, 0⟩

/-- The same in the naive task. -/
def tinyTaskDropped : Naive.State ℚ :=
  (Transition.run (Naive.step (.gpt2 tinyGpt2) tinyAskedAlone) Naive.Anything
    (List.replicate 20 Naive.Action.task ++ [.client .dropReceiver]) (Naive.init 4)).getD
      (Naive.init 4)

theorem cancellation_within_one_step_tinyDropped :
    (tinyDropped.running.map Sequence.client = [1, 2] ∧ tinyAlone.running.map Sequence.client = [2] ∧
      Scheduler.Released 1 tinyAlone) ∧
    ∃ serving, tinyTaskDropped.pc.serving = some serving ∧
      Naive.StopsWithinOneStep (.gpt2 tinyGpt2) tinyAskedAlone tinyTaskDropped serving.seq := by
  have hdropped : Scheduler.Reaches Scheduler.tinyGpt2Scheduler Scheduler.Anything
      Scheduler.tinyReused tinyDropped :=
    Transition.reaches_getD_run (by decide +kernel) Scheduler.tinyReused
  have halone : Scheduler.Reaches Scheduler.tinyGpt2Scheduler Scheduler.Anything tinyDropped
      tinyAlone :=
    Transition.reaches_getD_run (by decide +kernel) tinyDropped
  have htask : Naive.Reaches (.gpt2 tinyGpt2) tinyAskedAlone Naive.Anything (Naive.init 4)
      tinyTaskDropped :=
    Transition.reaches_getD_run (by decide +kernel) (Naive.init 4)
  obtain ⟨hscheduler, hnaive⟩ := cancellation_within_one_step Scheduler.tinyGpt2Scheduler 2 8 1 1 1 4
    (fun _ ↦ 5) (.gpt2 tinyGpt2) tinyAskedAlone 4
  have hclients : tinyDropped.running.map Sequence.client = [1, 2] := by decide +kernel
  have hrest : tinyAlone.running.map Sequence.client = [2] := by decide +kernel
  refine ⟨⟨hclients, hrest, ?_⟩, ?_⟩
  · obtain ⟨seq, hseq, hclient⟩ : ∃ seq ∈ tinyDropped.running, seq.client = 1 :=
      List.mem_map.mp (hclients ▸ List.mem_cons_self)
    have hstops := hscheduler tinyDropped (Scheduler.reaches_tinyReused.trans hdropped) seq
      (List.mem_append_left _ hseq) (Or.inr (hclient ▸ by decide +kernel))
    have hpc : tinyAlone.pc = .forward := Scheduler.Pc.eq_forward (by decide +kernel)
    rw [← hclient]
    apply hstops.without tinyAlone halone hpc
    unfold Scheduler.State.inPass
    rw [hpc, hrest, hclient]
    decide
  · obtain ⟨serving, hserving⟩ := Option.isSome_iff_exists.mp
      (by decide +kernel : tinyTaskDropped.pc.serving.isSome = true)
    exact ⟨serving, hserving, hnaive tinyTaskDropped htask serving hserving
      (Or.inr (by decide +kernel))⟩

end HotBatch
