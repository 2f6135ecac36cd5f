import GradedAccess.Decisions
import GradedAccess.Enrolment
import GradedAccess.Resolution

/-!
# The engine

An engine answers access checks from its caches and remembers its decisions.  Only permissions of
known guards are remembered, and only for users who are not superusers: for the others there is
nothing to look up.

Reloading changes the caches and leaves the remembered decisions alone.  A decision may therefore
outlive the rows it was made from, but not its lifetime.

`bootstrap` makes a new engine: it enrols the declared permissions and then loads everything.

The sweeper drops ended decisions at once when it starts and again after every interval.
-/

namespace GradedAccess

/-- Caches and the decisions made from them. -/
structure Engine where
  caches : Caches := {}
  decisions : Decisions
  deriving DecidableEq

namespace Engine

/-- An engine that knows nothing yet. -/
def new (lifetime : Duration) : Engine := { decisions := { lifetime } }

/-- Whether an identity is allowed a permission, and the engine after the check. -/
def can (engine : Engine) (now : Instant) (identity : Identity) (category name : String) :
    Bool × Engine :=
  if identity.superuser then (true, engine)
  else
    match engine.caches.permissionId category name with
    | none => (false, engine)
    | some permission =>
      match engine.decisions.get now identity.user permission with
      | (some allowed, decisions) => (allowed, { engine with decisions })
      | (none, decisions) =>
        let allowed := engine.caches.resolve identity.job identity.grade permission
        (allowed, { engine with
          decisions := decisions.insert now identity.user permission allowed })

/-- Runs a load on the caches of an engine. -/
def load {σ α : Type} (load : Load σ α) (engine : Engine) (store : σ) :
    Except Fault α × Engine × σ :=
  let (result, loaded) := load ⟨engine.caches, store⟩
  (result, { engine with caches := loaded.caches }, loaded.store)

/-- A new engine over a store, if its permissions can be enrolled and its rows loaded. -/
def bootstrap {σ : Type} (source : Source σ) (registry : Registry) (lifetime : Duration)
    (store : σ) : Except Fault Engine × σ :=
  match source.enrol registry store with
  | (.error fault, store) => (.error fault, store)
  | (.ok _, store) =>
    match (new lifetime).load source.loadAll store with
    | (.error fault, _, store) => (.error fault, store)
    | (.ok _, engine, store) => (.ok engine, store)

/-- The instants at which a sweeper sweeps when it runs for some time. -/
def sweeps (interval run : Duration) : List Instant :=
  let interval := max interval (Duration.ofMillis 1)
  (List.range (run / interval + 1)).map (· * interval)

/-- The engine after its sweeper has run for some time.  `clock` says what the clock of the
decisions shows at an instant of the sweeper's. -/
def sweep (engine : Engine) (clock : Instant → Instant) (interval run : Duration) : Engine :=
  { engine with
    decisions := (sweeps interval run).foldl
      (fun decisions instant => (decisions.purge (clock instant)).2) engine.decisions }

end Engine

end GradedAccess
