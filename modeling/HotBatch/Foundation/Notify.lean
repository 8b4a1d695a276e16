import Mathlib.Data.Bool.Basic

/-!
# A notification with one stored permit

One consumer waits for a notification and any number of producers send one. A producer wakes the
consumer if it is registered as waiting, and otherwise leaves a permit, of which there is at most
one; the consumer takes a permit at once. What a wait can rely on is `signalled`: a permit is stored
or the waiting consumer has been woken.
-/

namespace HotBatch

/-- The consumer's place in the notification. -/
inductive Waiter where
  | absent
  | waiting
  | woken
  deriving DecidableEq

structure Notify where
  permit : Bool
  waiter : Waiter
  deriving DecidableEq

namespace Notify

def new : Notify := ⟨false, .absent⟩

/-- `notify_one`. -/
def notifyOne (notify : Notify) : Notify :=
  match notify.waiter with
  | .waiting => { notify with waiter := .woken }
  | _ => { notify with permit := true }

/-- A poll of `notified()`: whether it is over, and the notification after it. -/
def poll (notify : Notify) : Bool × Notify :=
  match notify.waiter with
  | .absent =>
      if notify.permit then (true, { notify with permit := false })
      else (false, { notify with waiter := .waiting })
  | .waiting => (false, notify)
  | .woken => (true, { notify with waiter := .absent })

/-- `notified()` is dropped. A wakeup that it has already got goes back. -/
def abandon (notify : Notify) : Notify :=
  match notify.waiter with
  | .woken => ⟨true, .absent⟩
  | _ => { notify with waiter := .absent }

/-- A permit is stored or the consumer has been woken. -/
def signalled (notify : Notify) : Bool := notify.permit || notify.waiter = .woken

/-- Nobody waits while a permit is stored. -/
def Settled (notify : Notify) : Prop := notify.waiter = .waiting → notify.permit = false

/-- A permit is stored although the consumer has already been woken. -/
def spare (notify : Notify) : Bool := notify.permit && notify.waiter = .woken

variable {notify : Notify}

@[simp]
theorem signalled_notifyOne : notify.notifyOne.signalled = true := by
  obtain ⟨permit, waiter⟩ := notify
  cases waiter <;> simp [notifyOne, signalled]

/-- A wait is over at the next poll exactly if it has been signalled. -/
theorem fst_poll (hsettled : notify.Settled) : notify.poll.1 = notify.signalled := by
  obtain ⟨permit, waiter⟩ := notify
  cases waiter with
  | absent => cases permit <;> rfl
  | waiting =>
      obtain rfl : permit = false := hsettled rfl
      rfl
  | woken => simp [poll, signalled]

/-- A wait that is over is no longer registered. -/
theorem waiter_poll (hready : notify.poll.1 = true) : notify.poll.2.waiter = .absent := by
  obtain ⟨permit, waiter⟩ := notify
  cases waiter with
  | absent =>
      cases permit with
      | true => rfl
      | false => cases hready
  | waiting => cases hready
  | woken => rfl

theorem waiter_abandon : notify.abandon.waiter = .absent := by
  obtain ⟨permit, waiter⟩ := notify
  cases waiter <;> rfl

theorem waiter_notifyOne (habsent : notify.waiter = .absent) :
    notify.notifyOne.waiter = .absent := by
  rw [notifyOne, habsent]

theorem settled_new : new.Settled := fun _ ↦ rfl

theorem settled_notifyOne (hsettled : notify.Settled) : notify.notifyOne.Settled := by
  obtain ⟨permit, waiter⟩ := notify
  cases waiter with
  | waiting => intro hwaiting; cases hwaiting
  | absent => intro hwaiting; cases hwaiting
  | woken => intro hwaiting; cases hwaiting

theorem settled_poll (hsettled : notify.Settled) : notify.poll.2.Settled := by
  obtain ⟨permit, waiter⟩ := notify
  cases waiter with
  | absent =>
      cases permit with
      | true => intro hwaiting; cases hwaiting
      | false => exact fun _ ↦ rfl
  | waiting => exact hsettled
  | woken => intro hwaiting; cases hwaiting

theorem settled_abandon : notify.abandon.Settled := by
  obtain ⟨permit, waiter⟩ := notify
  cases waiter <;> (intro hwaiting; cases hwaiting)

end Notify

end HotBatch
