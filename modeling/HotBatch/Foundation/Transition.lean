import Mathlib.Data.Option.Basic
import Mathlib.Order.WellFounded

/-!
# Runs of a machine

A machine is a partial step function on states, driven by actions: its own and those of the parties
around it. `Reaches` collects the states of all runs in which every step meets a condition on the
state before it and its action; without a condition these are the reachable states. An invariant is
proved for one step and holds along every run, and an invariant that has already been established
may be used for the next one.
-/

namespace HotBatch.Transition

variable {σ ι : Type} {next : ι → σ → Option σ} {allowed : σ → ι → Prop} {start : σ}

/-- States of the runs from `start` whose steps are all allowed. -/
inductive Reaches (next : ι → σ → Option σ) (allowed : σ → ι → Prop) (start : σ) : σ → Prop where
  | refl : Reaches next allowed start start
  | step {before after : σ} {action : ι} (hreach : Reaches next allowed start before)
      (hallowed : allowed before action) (hnext : next action before = some after) :
      Reaches next allowed start after

/-- A step does not lead out of the invariant, at least from reachable states. -/
def PreservedFrom (next : ι → σ → Option σ) (allowed : σ → ι → Prop) (start : σ)
    (invariant : σ → Prop) : Prop :=
  ∀ ⦃before after : σ⦄ ⦃action : ι⦄, Reaches next allowed start before → invariant before →
    allowed before action → next action before = some after → invariant after

/-- An invariant of the first state that no step leaves holds along every run. -/
theorem Reaches.invariant {invariant : σ → Prop}
    (hpreserved : PreservedFrom next allowed start invariant) (hstart : invariant start) {state : σ}
    (hreach : Reaches next allowed start state) : invariant state := by
  induction hreach with
  | refl => exact hstart
  | step hbefore hallowed hnext ih => exact hpreserved hbefore ih hallowed hnext

/-- Fewer conditions allow more runs. -/
theorem Reaches.mono {weaker : σ → ι → Prop}
    (hweaker : ∀ state action, allowed state action → weaker state action) {state : σ}
    (hreach : Reaches next allowed start state) : Reaches next weaker start state := by
  induction hreach with
  | refl => exact .refl
  | step _ hallowed hnext ih => exact .step ih (hweaker _ _ hallowed) hnext

/-- Runs can be put one after the other. -/
theorem Reaches.trans {middle state : σ} (hfirst : Reaches next allowed start middle)
    (hsecond : Reaches next allowed middle state) : Reaches next allowed start state := by
  induction hsecond with
  | refl => exact hfirst
  | step _ hallowed hnext ih => exact .step ih hallowed hnext

/-- A machine that can always take a step down a well-founded order reaches a final state. -/
theorem exists_reaches_final {β : Type} {smaller : β → β → Prop} (hwf : WellFounded smaller)
    (measure : σ → β) {final : σ → Prop}
    (hstep : ∀ state, Reaches next allowed start state → ¬ final state → ∃ action after,
      allowed state action ∧ next action state = some after ∧
        smaller (measure after) (measure state)) :
    ∃ state, Reaches next allowed start state ∧ final state := by
  have hfrom : ∀ value state, measure state = value → Reaches next allowed start state →
      ∃ state, Reaches next allowed start state ∧ final state := by
    intro value
    induction value using hwf.induction with
    | _ value ih =>
        intro state hmeasure hreach
        by_cases hfinal : final state
        · exact ⟨state, hreach, hfinal⟩
        · obtain ⟨action, after, hallowed, hnext, hsmaller⟩ := hstep state hreach hfinal
          exact ih _ (hmeasure ▸ hsmaller) after rfl (.step hreach hallowed hnext)
  exact hfrom _ start rfl .refl

/-- The run that takes the given actions, if all of them are allowed and possible. -/
def run (next : ι → σ → Option σ) (allowed : σ → ι → Prop)
    [∀ state action, Decidable (allowed state action)] : List ι → σ → Option σ
  | [], state => some state
  | action :: actions, state =>
      if allowed state action then (next action state).bind (run next allowed actions) else none

section Run

variable [∀ state action, Decidable (allowed state action)]

theorem reaches_of_run {actions : List ι} {state : σ}
    (hrun : run next allowed actions start = some state) : Reaches next allowed start state := by
  induction actions generalizing start with
  | nil =>
      obtain rfl := Option.some.inj hrun
      exact .refl
  | cons action actions ih =>
      rw [run] at hrun
      split at hrun
      · rename_i hallowed
        obtain ⟨middle, hmiddle, hrest⟩ := Option.bind_eq_some_iff.mp hrun
        exact Reaches.trans (.step .refl hallowed hmiddle) (ih hrest)
      · cases hrun

/-- The last state of a run that can be taken. -/
theorem reaches_getD_run {actions : List ι}
    (hrun : (run next allowed actions start).isSome = true) (other : σ) :
    Reaches next allowed start ((run next allowed actions start).getD other) := by
  obtain ⟨state, hstate⟩ := Option.isSome_iff_exists.mp hrun
  rw [hstate]
  exact reaches_of_run hstate

end Run

end HotBatch.Transition
