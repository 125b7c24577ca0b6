/-!
Contract: tasks that wait for a quiet moment.

Scheduling a task for a key replaces the task that waits for the same key, so that a burst of
changes runs one task, a delay after the last of them.

Owns: `Scheduler` with its clock, in milliseconds, and its waiting tasks.

Does not own: what a task does.
-/

namespace StyleSense

/-- A task that waits until the clock shows `due`. -/
structure Scheduler.Task (κ α : Type) where
  key : κ
  due : Nat
  payload : α
deriving DecidableEq, Repr

/-- A clock and the tasks that wait, oldest first. -/
structure Scheduler (κ α : Type) where
  delay : Nat
  now : Nat
  waiting : List (Scheduler.Task κ α)
deriving DecidableEq, Repr

namespace Scheduler

variable {κ α : Type} [DecidableEq κ]

/-- Nothing waits. -/
def start (delay : Nat) : Scheduler κ α :=
  ⟨delay, 0, []⟩

/-- Drop the task of a key. -/
def cancel (scheduler : Scheduler κ α) (key : κ) : Scheduler κ α :=
  { scheduler with waiting := scheduler.waiting.filter fun task => task.key ≠ key }

/-- Let a task wait for the delay that holds now. -/
def schedule (scheduler : Scheduler κ α) (key : κ) (payload : α) : Scheduler κ α :=
  { scheduler with
    waiting := (scheduler.cancel key).waiting ++ [⟨key, scheduler.now + scheduler.delay, payload⟩] }

/-- Change the delay of the tasks to come. -/
def setDelay (scheduler : Scheduler κ α) (delay : Nat) : Scheduler κ α :=
  { scheduler with delay }

/-- Let time pass. -/
def advance (scheduler : Scheduler κ α) (elapsed : Nat) : Scheduler κ α :=
  { scheduler with now := scheduler.now + elapsed }

/-- Whether the time of a task has come. -/
def isDue (scheduler : Scheduler κ α) (task : Task κ α) : Bool :=
  task.due ≤ scheduler.now

/-- Take out the tasks whose time has come, earliest first. -/
def takeDue (scheduler : Scheduler κ α) : List (Task κ α) × Scheduler κ α :=
  let (due, waiting) := scheduler.waiting.partition scheduler.isDue
  (due.mergeSort fun left right => left.due ≤ right.due, { scheduler with waiting })

/-- Number of keys with a task. -/
def count (scheduler : Scheduler κ α) : Nat :=
  scheduler.waiting.length

end Scheduler

end StyleSense
