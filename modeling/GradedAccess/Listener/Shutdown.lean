import GradedAccess.Time

/-!
# The shutdown flag

Background tasks watch one flag.  Whoever holds the other end sets it from time to time, and a task
notices that it has been set even if the value is the same as before; such a nudge makes the task
look up and go on.  Only a raised flag stops it.  If the other end is abandoned nobody can stop the
task any more, so it stops by itself.  Nothing is set at an abandoned end: the flag stays as it was
left, and there is no further nudge.

Several changes between two looks are noticed once, with the value they leave.

`Shutdown` holds the flag as it is now and the changes that are still to come.  A task that waits
asks for the first change within its wait.  A wait that is over at once notices nothing.
-/

namespace GradedAccess

/-- A change at the other end of the flag. -/
inductive Signal where
  | set (flag : Bool)
  | abandon
  deriving DecidableEq, Repr

/-- The flag, and what will happen to it. -/
structure Shutdown where
  raised : Bool := false
  unseen : Bool := false
  abandoned : Bool := false
  upcoming : List (Instant × Signal) := []
  deriving DecidableEq, Repr

/-- How a wait ends. -/
inductive Woken where
  /-- What was waited for has come. -/
  | due
  /-- The flag was set and is not raised. -/
  | nudged
  /-- The flag is raised, or abandoned. -/
  | stopped
  deriving DecidableEq, Repr

namespace Shutdown

/-- The flag after one more change, which an abandoned flag does not take. -/
def receive (shutdown : Shutdown) (signal : Signal) : Shutdown :=
  if shutdown.abandoned then shutdown
  else
    match signal with
    | .set flag => { shutdown with raised := flag, unseen := true }
    | .abandon => { shutdown with abandoned := true }

/-- An abandoned flag never changes. -/
@[simp] theorem receive_of_abandoned {shutdown : Shutdown} (h : shutdown.abandoned = true)
    (signal : Signal) : shutdown.receive signal = shutdown :=
  if_pos h

/-- The flag once the changes up to an instant have happened. -/
def settleWith (now : Instant) (shutdown : Shutdown) : List (Instant × Signal) → Shutdown
  | [] => { shutdown with upcoming := [] }
  | (time, signal) :: rest =>
    if time ≤ now then settleWith now (shutdown.receive signal) rest
    else { shutdown with upcoming := (time, signal) :: rest }

/-- The flag at an instant. -/
def settle (shutdown : Shutdown) (now : Instant) : Shutdown :=
  settleWith now shutdown shutdown.upcoming

/-- The flag as a task finds it that starts now: what happened before is not news. -/
def start (upcoming : List (Instant × Signal)) : Shutdown :=
  { settle { upcoming } 0 with unseen := false }

/-- Looks at a flag that has changed: whether it stops the task, and the flag afterwards. -/
def look (shutdown : Shutdown) : Bool × Shutdown :=
  if shutdown.unseen then (shutdown.raised, { shutdown with unseen := false })
  else (true, shutdown)

/-- When the next change is noticed, whether it stops the task, and the flag afterwards. -/
def next (shutdown : Shutdown) (now : Instant) : Option (Instant × Bool × Shutdown) :=
  let shutdown := shutdown.settle now
  if shutdown.unseen || shutdown.abandoned then some (now, shutdown.look)
  else
    match shutdown.upcoming with
    | [] => none
    | (time, _) :: _ => some (time, (shutdown.settle time).look)

/-- Waits for a deadline: how the wait ends, when, and the flag afterwards. -/
def wait (shutdown : Shutdown) (now deadline : Instant) : Woken × Instant × Shutdown :=
  if deadline ≤ now then (.due, now, shutdown)
  else
    match shutdown.next now with
    | none => (.due, deadline, shutdown)
    | some (time, stops, noticed) =>
      if time < deadline then (if stops then .stopped else .nudged, time, noticed)
      else (.due, deadline, shutdown)

/-- Waits through at most `looks` nudges for nothing but the end: when it comes, if ever. -/
def waitIdle (now : Instant) (shutdown : Shutdown) : (looks : Nat) → Option (Instant × Shutdown)
  | 0 => none
  | looks + 1 =>
    match shutdown.next now with
    | none => none
    | some (time, true, noticed) => some (time, noticed)
    | some (time, false, noticed) => waitIdle time noticed looks

/-- Waits for nothing but the end: when it comes, if ever.  Every nudge uses up a change. -/
def waitForever (shutdown : Shutdown) (now : Instant) : Option (Instant × Shutdown) :=
  waitIdle now shutdown (shutdown.upcoming.length + 2)

end Shutdown

end GradedAccess
