import GradedAccess.Engine
import GradedAccess.Listener.Script
import GradedAccess.Listener.Shutdown

/-!
# The listener

A listener subscribes to a bus and applies one message after another: it reloads what the message
names, acknowledges the message whether the reload succeeded or not, and only then asks for the
next one.  A reload that fails leaves the caches as they were, and the message is not tried again.

When a subscription ends, fails or refuses an acknowledgement, and when subscribing is refused, the
listener waits and subscribes anew.  The first wait is the shortest, every further one is twice as
long up to the longest, and an opened subscription makes the next wait the shortest again.

The listener looks for the shutdown flag whenever it waits: for an answer, for a message, or for
the next attempt.  A nudge ends the wait for an answer or for the next attempt early.  It does not
end a subscription, but a silence that it breaks is over.  While a message is being applied nothing
is looked for.

`run` plays a listener against everything a bus does and keeps a `trace` of what happened when.
-/

namespace GradedAccess

/-- How long a listener waits between attempts to subscribe. -/
structure RetrySettings where
  shortest : Duration := Duration.ofMillis 500
  longest : Duration := Duration.ofSeconds 30
  deriving DecidableEq, Repr

namespace RetrySettings

/-- The length no wait exceeds. -/
def limit (settings : RetrySettings) : Duration := max settings.longest settings.shortest

/-- The wait after a wait. -/
def next (settings : RetrySettings) (wait : Duration) : Duration :=
  min (Duration.doubled wait) settings.limit

end RetrySettings

/-- Something a listener did. -/
inductive Happening where
  | subscribing
  | opened
  | refused
  | delivered (message : Message)
  | applied (event : Event) (result : Except Fault Report)
  | acknowledging (message : Message)
  | retrying (wait : Duration)

/-- A listener at work. -/
structure Listening (σ : Type) where
  engine : Engine
  store : σ
  now : Instant := 0
  shutdown : Shutdown := {}
  /-- The length of the next wait between attempts. -/
  wait : Duration
  trace : List (Instant × Happening) := []

/-- How the run of a listener ends. -/
inductive RunEnd where
  /-- The shutdown flag stopped it. -/
  | stopped
  /-- It waits for something that never comes. -/
  | waiting
  deriving DecidableEq, Repr

/-- A listener, apart from its state. -/
structure Listener (σ : Type) where
  source : Source σ
  /-- What the clock of the store shows. -/
  clock : σ → Instant
  settings : RetrySettings

namespace Listener

variable {σ : Type} (listener : Listener σ)

/-- Adds to the trace. -/
def note (happening : Happening) (state : Listening σ) : Listening σ :=
  { state with trace := state.trace ++ [(state.now, happening)] }

/-- Reloads what an event announces. -/
def apply (event : Event) (state : Listening σ) : Listening σ :=
  let (result, engine, store) := state.engine.load (listener.source.applyEvent event) state.store
  note (.applied event result) { state with
    engine
    store
    now := state.now + (listener.clock store - listener.clock state.store) }

/-- Waits, and says how the wait ended. -/
def waitUntil (deadline : Instant) (state : Listening σ) : Woken × Listening σ :=
  let (woken, now, shutdown) := state.shutdown.wait state.now deadline
  (woken, { state with now, shutdown })

/-- Waits for nothing but the end. -/
def waitForever (state : Listening σ) : RunEnd × Listening σ :=
  match state.shutdown.waitForever state.now with
  | none => (.waiting, state)
  | some (now, shutdown) => (.stopped, { state with now, shutdown })

/-- Works off a subscription.  Without an end of the run the subscription is over. -/
def consume : List Delivery → Listening σ → Option RunEnd × Listening σ
  | [], state =>
    let (runEnd, state) := waitForever state
    (some runEnd, state)
  | .silence length :: rest, state =>
    match waitUntil (state.now + length) state with
    | (.stopped, state) => (some .stopped, state)
    | (_, state) => consume rest state
  | .message message refusal :: rest, state =>
    let state := note (.acknowledging message)
      (listener.apply message.event (note (.delivered message) state))
    match refusal with
    | some _ => (none, state)
    | none => consume rest state
  | .close :: _, state => (none, state)
  | .failure _ :: _, state => (none, state)

/-- Whether the flag is raised at the moment. -/
def isStopped (state : Listening σ) : Bool := (state.shutdown.settle state.now).raised

/-- Waits before the next attempt, unless the run ends. -/
def retry (state : Listening σ) : Option RunEnd × Listening σ :=
  match waitUntil (state.now + state.wait) (note (.retrying state.wait) state) with
  | (.stopped, state) => (some .stopped, state)
  | (_, state) => (none, { state with wait := listener.settings.next state.wait })

/-- Works off one attempt to subscribe, and the wait after it unless the run ends. -/
def attempt (attempt : Attempt) (state : Listening σ) : Option RunEnd × Listening σ :=
  match waitUntil (state.now + attempt.delay) (note .subscribing state) with
  | (.stopped, state) => (some .stopped, state)
  | (.nudged, state) => (none, state)
  | (.due, state) =>
    match attempt.answer with
    | .error _ => listener.retry (note .refused state)
    | .ok deliveries =>
      match listener.consume deliveries
          (note .opened { state with wait := listener.settings.shortest }) with
      | (some runEnd, state) => (some runEnd, state)
      | (none, state) => listener.retry state

/-- Works off everything a bus does. -/
def run : List Attempt → Listening σ → RunEnd × Listening σ
  | [], state =>
    if isStopped state then (.stopped, state)
    else waitForever (note .opened (note .subscribing state))
  | first :: rest, state =>
    if isStopped state then (.stopped, state)
    else
      match listener.attempt first state with
      | (some runEnd, state) => (runEnd, state)
      | (none, state) => run rest state

end Listener

end GradedAccess
