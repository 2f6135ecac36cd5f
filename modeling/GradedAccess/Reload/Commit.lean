import GradedAccess.Caches
import GradedAccess.Reload.Screening
import GradedAccess.Store.Request

/-!
# What rows come to

What a reload comes to once all its rows have arrived.  Each function here takes the caches and the
rows of one scope, and gives either new caches with a `Report` or a fault.  Nothing is changed in
its place.  How the caches are brought from what they are to what they should be, one write after
another, is the subject of `Reload.Update`, and these functions say what it has to leave.

What rows may refer to differs by scope.  A full load brings its own catalog and roles, so rows are
screened against the rows themselves.  The smaller reloads are screened against the cached catalog;
a job's reload brings the roles and ceilings of the job, and a role's reload brings its role.
-/

namespace GradedAccess

open Std (ExtTreeMap)

/-- What a reload did. -/
structure Report where
  upserted : Nat := 0
  removed : Nat := 0
  skipped : Nat := 0
  clamped : Nat := 0
  deriving DecidableEq, Repr

namespace Report

instance : Add Report where
  add a b := ⟨a.upserted + b.upserted, a.removed + b.removed, a.skipped + b.skipped,
    a.clamped + b.clamped⟩

/-- The report of a replacement. -/
def ofTally (tally : Tally) : Report := ⟨tally.upserted, tally.removed, 0, 0⟩

/-- The report of a screening. -/
def ofScreened {α : Type} (screened : Screened α) : Report :=
  ⟨0, 0, screened.skipped, screened.clamped⟩

end Report

namespace Caches

/-! ## Parts of a reload -/

/-- Replaces the grants of some roles. -/
def commitGrants (caches : Caches) (named : List RoleId)
    (screened : Screened (RoleId × PermissionId × Bool)) : Caches × Report :=
  let replaced := caches.grants.replaceRows named screened.entries
  ({ caches with grants := replaced.1 }, .ofScreened screened + .ofTally replaced.2)

/-- Replaces the values of some roles. -/
def commitValues (caches : Caches) (named : List RoleId)
    (screened : Screened (RoleId × AttributeId × AttributeValue)) : Caches × Report :=
  let replaced := caches.values.replaceRows named screened.entries
  ({ caches with values := replaced.1 }, .ofScreened screened + .ofTally replaced.2)

/-- Replaces the ceilings of some jobs. -/
def commitCeilings (caches : Caches) (named : List String)
    (screened : Screened ((String × AttributeId) × AttributeValue)) : Caches × Report :=
  let fresh := screened.toCeilings.toList.map fun entry => (entry.1.1, entry.1.2, entry.2)
  let replaced := caches.ceilings.replaceRows named fresh
  ({ caches with ceilings := replaced.1 }, .ofScreened screened + .ofTally replaced.2)

/-- Drops everything that is held for a role. -/
def forget (caches : Caches) (role : RoleId) : Caches × Report :=
  let grants := caches.grants.replaceRow role []
  let values := caches.values.replaceRow role []
  ({ caches with roles := caches.roles.remove role, grants := grants.1, values := values.1 },
    .ofTally (⟨0, if (caches.roles.role role).isSome then 1 else 0⟩ + grants.2 + values.2))

/-! ## Everything -/

/-- The attributes of known permissions, by number. -/
def knownAttributes (rows : Rows) : ExtTreeMap AttributeId Attribute :=
  .ofList ((rows.attributes.filter fun attr =>
    rows.permissions.any (·.id = attr.permission)).map fun attr => (attr.id, attr))

/-- Roles by number. -/
def rolesById (roles : List Role) : ExtTreeMap RoleId Role :=
  .ofList (roles.map fun role => (role.id, role))

/-- What the rows of a full load may refer to: each other. -/
def knownIn (rows : Rows) : Known where
  jobOf id := (rolesById rows.roles)[id]?.map (·.job)
  permission id := rows.permissions.any (·.id = id)
  attr id := (knownAttributes rows)[id]?

/-- Replaces everything by the rows of a store. -/
def load (caches : Caches) (rows : Rows) : Except Fault (Caches × Report) := do
  let known := knownIn rows
  let grants := known.screenGrants rows.grants
  let ceilings ← known.screenCeilings rows.ceilings
  let values ← known.screenValues (fun job attr => ceilings.toCeilings[(job, attr)]?) rows.values
  let permissions := caches.catalog.replacePermissions rows.permissions
  let attributes := permissions.1.replaceAttributes (knownAttributes rows).values
  let roles := caches.roles.replaceAll rows.roles
  let state := { caches with catalog := attributes.1, roles := roles.1 }
  let (state, grantReport) := state.commitGrants caches.grants.firsts grants
  let (state, valueReport) := state.commitValues caches.values.firsts values
  let (state, ceilingReport) := state.commitCeilings caches.ceilings.firsts ceilings
  pure (state, .ofTally (permissions.2 + attributes.2 + roles.2) + grantReport + valueReport
    + ceilingReport)

/-! ## One role -/

/-- What the rows of one role may refer to: the role, and the cached catalog. -/
def knownFor (caches : Caches) (id : RoleId) (row : Role) : Known where
  jobOf role := if role = id then some row.job else none
  permission permission := (caches.catalog.permission permission).isSome
  attr := caches.catalog.attr

/-- Replaces a role and its grants; without a row of the role, drops it. -/
def reloadGrants (caches : Caches) (id : RoleId) (role : Option Role) (rows : List Grant) :
    Caches × Report :=
  match role with
  | none => caches.forget id
  | some row =>
    let grants := (caches.knownFor id row).screenGrants rows
    { caches with roles := caches.roles.upsert row }.commitGrants [id] grants

/-- Replaces a role and its values; without a row of the role, drops it. -/
def reloadValues (caches : Caches) (id : RoleId) (role : Option Role) (rows : List RoleValue) :
    Except Fault (Caches × Report) :=
  match role with
  | none => .ok (caches.forget id)
  | some row => do
    let values ← (caches.knownFor id row).screenValues caches.ceiling rows
    pure ({ caches with roles := caches.roles.upsert row }.commitValues [id] values)

/-! ## One job -/

/-- The rows of a job: its roles, its ceilings, and the grants and values of its roles. -/
structure JobRows where
  roles : List Role
  ceilings : List Ceiling
  grants : List Grant
  values : List RoleValue

/-- What the rows of one job may refer to: the roles of the job, and the cached catalog. -/
def knownAmong (caches : Caches) (roles : List Role) : Known where
  jobOf id := (rolesById roles)[id]?.map (·.job)
  permission permission := (caches.catalog.permission permission).isSome
  attr := caches.catalog.attr

/-- Replaces the roles and ceilings of a job, and the grants and values of the roles it had and of
those it has now.  Rows of other jobs are left out. -/
def reloadJob (caches : Caches) (job : String) (rows : JobRows) :
    Except Fault (Caches × Report) := do
  let roles := rows.roles.filter (·.job = job)
  let known := caches.knownAmong roles
  let grants := known.screenGrants rows.grants
  let ceilings ← known.screenCeilings (rows.ceilings.filter (·.job = job))
  let values ← known.screenValues (fun job attr => ceilings.toCeilings[(job, attr)]?) rows.values
  let affected := caches.roles.jobRoles job ++ roles.map (·.id)
  let replaced := caches.roles.replaceJob job roles
  let state := { caches with roles := replaced.1 }
  let (state, grantReport) := state.commitGrants affected grants
  let (state, valueReport) := state.commitValues affected values
  let (state, ceilingReport) := state.commitCeilings [job] ceilings
  pure (state, .ofTally replaced.2 + grantReport + valueReport + ceilingReport)

end Caches

end GradedAccess
