import GradedAccess.Store.Request
import Std.Data.ExtTreeMap

/-!
# Observed stores

A wrapper around a store that shows and disturbs how it is used.  Every request goes through four
stations: it is logged, it waits for as long as delays say, it fails if a fault has been planted,
and only then is it carried out.  Delays and faults are set for one kind of request or, under `*`,
for every kind that has none of its own.

The wrapper has a clock, and waiting moves it.  A request that would wait longer than its limit
waits exactly for the limit and gets no answer; it is not carried out.  A wait as long as the limit
is still in time.
-/

namespace GradedAccess

open Std (ExtTreeMap)

/-- A store of states `σ` with a log, a clock and planted disturbances. -/
structure Observed (σ : Type) where
  inner : σ
  log : List String := []
  delays : ExtTreeMap String Duration := ∅
  faults : ExtTreeMap String Fault := ∅
  now : Instant := 0

namespace Observed

variable {σ α : Type}

/-- What is planted for a request: under its own name, or else under `*`. -/
def planted {β : Type} (table : ExtTreeMap String β) (request : Request α) : Option β :=
  table[request.name]? <|> table["*"]?

/-- The answer to a request that may wait as long as it has to. -/
def answer (inner : {α : Type} → Request α → σ → Except Fault α × σ) (request : Request α)
    (state : Observed σ) : Except Fault α × Observed σ :=
  let state := { state with
    log := state.log ++ [request.describe]
    now := state.now + (planted state.delays request).getD 0 }
  match planted state.faults request with
  | some fault => (.error fault, state)
  | none =>
    let (reply, inner) := inner request state.inner
    (reply, { state with inner })

/-- The store of observed states. -/
def store (inner : {α : Type} → Request α → σ → Except Fault α × σ) : Store (Observed σ) where
  ask request limit state :=
    if limit < (planted state.delays request).getD 0 then
      (none, { state with log := state.log ++ [request.describe], now := state.now + limit })
    else
      let (reply, state) := answer inner request state
      (some reply, state)

end Observed

end GradedAccess
