import GradedAccess.Reload.Update

/-!
# Loading and reloading

A reload first fetches every row of its scope and only then works on the caches, so a store that
fails or does not answer in time leaves them as they were.  The two halves are two types here.  A
`Fetch` sees the store and not the caches; an `Update` sees the caches and not the store.  Either
may be broken off by a fault, and then the store and the caches stay as they are at that point.

Every single request has the same limit.  `reload` does one scope: everything, one job, or one
role.  A role has its grants and then its values reloaded, each with a fetch and an update of its
own.
-/

namespace GradedAccess

/-- What is reloaded. -/
inductive Scope where
  | all
  | role (id : RoleId)
  | job (job : String)
  deriving DecidableEq

/-- A scope as it is shown. -/
def Scope.display : Scope → String
  | .all => "all"
  | .role id => "role:" ++ toString id
  | .job name => "job:" ++ name

/-- Something that only asks the store. -/
abbrev Fetch (σ : Type) := ExceptT Fault (StateM σ)

/-- The caches, beside the store they are loaded from. -/
structure Loaded (σ : Type) where
  caches : Caches
  store : σ

/-- Something that asks the store and changes the caches. -/
abbrev Load (σ : Type) := ExceptT Fault (StateM (Loaded σ))

/-- A store, and how long it may take for one request. -/
structure Source (σ : Type) where
  store : Store σ
  limit : Duration

namespace Source

variable {σ α : Type} (source : Source σ)

/-- The answer to one request; `loading` is what is said to have timed out without one. -/
def fetch (loading : String) (request : Request α) : Fetch σ α := fun state =>
  match source.store.ask request source.limit state with
  | (some reply, state) => (reply, state)
  | (none, state) => (.error (.timedOut loading source.limit), state)

/-! ## Fetching -/

/-- All rows. -/
def fetchAll : Fetch σ Rows := do
  let permissions ← source.fetch "permissions" .permissions
  let attributes ← source.fetch "attributes" .attributes
  let roles ← source.fetch "roles" (.roles none)
  let grants ← source.fetch "role grants" (.grants none)
  let values ← source.fetch "role attribute values" (.values none)
  let ceilings ← source.fetch "job attribute ceilings" (.ceilings none)
  pure { permissions, attributes, roles, grants, values, ceilings }

/-- A role and its grants. -/
def fetchGrants (id : RoleId) : Fetch σ (Option Role × List Grant) := do
  let role ← source.fetch "role" (.role id)
  let grants ← source.fetch "role grants" (.grants (some id))
  pure (role, grants)

/-- A role and its values. -/
def fetchValues (id : RoleId) : Fetch σ (Option Role × List RoleValue) := do
  let role ← source.fetch "role" (.role id)
  let values ← source.fetch "role attribute values" (.values (some id))
  pure (role, values)

/-- The grants and values of some roles, one role after another. -/
def fetchEach : List Role → Fetch σ (List Grant × List RoleValue)
  | [] => pure ([], [])
  | role :: roles => do
    let grants ← source.fetch "role grants" (.grants (some role.id))
    let values ← source.fetch "role attribute values" (.values (some role.id))
    let (moreGrants, moreValues) ← fetchEach roles
    pure (grants ++ moreGrants, values ++ moreValues)

/-- A job's roles and ceilings, and the grants and values of every role that was listed. -/
def fetchJob (job : String) : Fetch σ Caches.JobRows := do
  let roles ← source.fetch "roles" (.roles (some job))
  let ceilings ← source.fetch "job attribute ceilings" (.ceilings (some job))
  let (grants, values) ← source.fetchEach roles
  pure { roles, ceilings, grants, values }

end Source

/-! ## Loading -/

namespace Load

variable {σ α : Type}

/-- Runs a fetch beside the caches. -/
def ofFetch (fetch : Fetch σ α) : Load σ α := fun state =>
  let (result, store) := fetch state.store
  (result, { state with store })

/-- Works on the caches beside the store. -/
def ofUpdate (update : Update α) : Load σ α := fun state =>
  let (result, caches) := update state.caches
  (result, { state with caches })

/-- A fetch does not see the caches, let alone change them. -/
@[simp] theorem caches_ofFetch (fetch : Fetch σ α) (state : Loaded σ) :
    (ofFetch fetch state).2.caches = state.caches := rfl

/-- An update does not see the store. -/
@[simp] theorem store_ofUpdate (update : Update α) (state : Loaded σ) :
    (ofUpdate update state).2.store = state.store := rfl

end Load

namespace Source

variable {σ : Type} (source : Source σ)

/-- Reloads everything. -/
def loadAll : Load σ Report := do
  let rows ← Load.ofFetch source.fetchAll
  Load.ofUpdate (.load rows)

/-- Reloads the grants of a role. -/
def reloadGrants (id : RoleId) : Load σ Report := do
  let (role, rows) ← Load.ofFetch (source.fetchGrants id)
  Load.ofUpdate (.reloadGrants id role rows)

/-- Reloads the values of a role. -/
def reloadValues (id : RoleId) : Load σ Report := do
  let (role, rows) ← Load.ofFetch (source.fetchValues id)
  Load.ofUpdate (.reloadValues id role rows)

/-- Reloads the grants and then the values of a role. -/
def reloadRole (id : RoleId) : Load σ Report := do
  let grants ← source.reloadGrants id
  let values ← source.reloadValues id
  pure (grants + values)

/-- Reloads a job. -/
def reloadJob (job : String) : Load σ Report := do
  let rows ← Load.ofFetch (source.fetchJob job)
  Load.ofUpdate (.reloadJob job rows)

/-- Reloads a scope. -/
def reload : Scope → Load σ Report
  | .all => source.loadAll
  | .role id => source.reloadRole id
  | .job job => source.reloadJob job

/-- Reloads what an event announces. -/
def applyEvent : Event → Load σ Report
  | .roleGrants role => source.reloadGrants role
  | .roleValues role => source.reloadValues role
  | .jobCeilings job => source.reloadJob job

end Source

end GradedAccess
