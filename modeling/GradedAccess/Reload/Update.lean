import GradedAccess.Reload.Commit

/-!
# Writing rows into the caches

`Reload.Commit` says what the rows of a scope come to.  This module says how they are taken in, and
this is what runs.  A reload works on the caches in their place.  It screens its rows first, against
what the caches hold by then, and a row that cannot be used is a fault.  Then it makes one write
after another: the permissions, the attributes, the roles, and one row of grants, values or ceilings
at a time.  The writes are many and none of them is taken back, so a fault between two of them would
leave the caches half done.  That no fault can come after the first write is seen only from the
whole of a reload, and it is what makes a reload come to the same as the pure function.

A write never looks at another row than the one it replaces, and so the rows of a table are visited
in the order of their keys.
-/

namespace GradedAccess

open Std (ExtTreeSet TransOrd)

/-- Work on the caches. -/
abbrev Update := InPlace Caches

namespace Caches

/-- A part of the caches: how it is found, and the caches with something else in its place. -/
structure Field (τ : Type) where
  read : Caches → τ
  put : τ → Caches → Caches
  read_put : ∀ new caches, read (put new caches) = new := by intros; rfl
  put_read : ∀ caches, put (read caches) caches = caches := by intros; rfl
  put_put : ∀ new earlier caches, put new (put earlier caches) = put new caches := by intros; rfl

namespace Field

/-- The permissions and attributes. -/
def catalog : Field Catalog where
  read := Caches.catalog
  put catalog caches := { caches with catalog }

/-- The roles. -/
def roles : Field RoleIndex where
  read := Caches.roles
  put roles caches := { caches with roles }

/-- The grants of roles. -/
def grants : Field (PairTable RoleId PermissionId Bool) where
  read := Caches.grants
  put grants caches := { caches with grants }

/-- The values of roles. -/
def values : Field (PairTable RoleId AttributeId AttributeValue) where
  read := Caches.values
  put values caches := { caches with values }

/-- The ceilings of jobs. -/
def ceilings : Field (PairTable String AttributeId AttributeValue) where
  read := Caches.ceilings
  put ceilings caches := { caches with ceilings }

/-- One write: a part of the caches is changed in its place, and the change is counted. -/
def write {τ : Type} (field : Field τ) (change : τ → τ × Tally) : Update Report := do
  let changed := change (field.read (← get))
  modify (field.put changed.1)
  pure (.ofTally changed.2)

variable {α β γ : Type} [Ord α] [Ord β] [TransOrd α] [TransOrd β] [DecidableEq α] [DecidableEq β]

/-- Replaces the rows of a table under several first parts, one write for each. -/
def writeRows (field : Field (PairTable α β γ)) (named : List α) (fresh : List (α × β × γ)) :
    Update Report :=
  (ExtTreeSet.ofList (named ++ fresh.map (·.1))).toList.foldlM
    (fun report a => do
      let written ← field.write (·.replaceRow a (PairTable.freshRow fresh a))
      pure (report + written))
    {}

end Field

end Caches

namespace Update

open Caches (Field)

/-! ## Parts of a reload -/

/-- Replaces the grants of some roles. -/
def writeGrants (named : List RoleId) (screened : Screened (RoleId × PermissionId × Bool)) :
    Update Report := do
  let written ← Field.grants.writeRows named screened.entries
  pure (.ofScreened screened + written)

/-- Replaces the values of some roles. -/
def writeValues (named : List RoleId)
    (screened : Screened (RoleId × AttributeId × AttributeValue)) : Update Report := do
  let written ← Field.values.writeRows named screened.entries
  pure (.ofScreened screened + written)

/-- Replaces the ceilings of some jobs. -/
def writeCeilings (named : List String)
    (screened : Screened ((String × AttributeId) × AttributeValue)) : Update Report := do
  let fresh := screened.toCeilings.toList.map fun entry => (entry.1.1, entry.1.2, entry.2)
  let written ← Field.ceilings.writeRows named fresh
  pure (.ofScreened screened + written)

/-- Drops everything that is held for a role. -/
def forget (role : RoleId) : Update Report := do
  let dropped ← Field.roles.write fun roles =>
    (roles.remove role, ⟨0, if (roles.role role).isSome then 1 else 0⟩)
  let grants ← Field.grants.write (·.replaceRow role [])
  let values ← Field.values.write (·.replaceRow role [])
  pure (dropped + grants + values)

/-- Holds a role. -/
def hold (role : Role) : Update Unit :=
  modify fun caches => { caches with roles := caches.roles.upsert role }

/-! ## Scopes -/

/-- Writes screened rows in the place of everything. -/
def takeAll (rows : Rows) (grants : Screened (RoleId × PermissionId × Bool))
    (values : Screened (RoleId × AttributeId × AttributeValue))
    (ceilings : Screened ((String × AttributeId) × AttributeValue)) : Update Report := do
  let permissions ← Field.catalog.write (·.replacePermissions rows.permissions)
  let attributes ← Field.catalog.write (·.replaceAttributes (Caches.knownAttributes rows).values)
  let roles ← Field.roles.write (·.replaceAll rows.roles)
  let grantReport ← writeGrants (← get).grants.firsts grants
  let valueReport ← writeValues (← get).values.firsts values
  let ceilingReport ← writeCeilings (← get).ceilings.firsts ceilings
  pure (permissions + attributes + roles + grantReport + valueReport + ceilingReport)

/-- Replaces everything by the rows of a store. -/
def load (rows : Rows) : Update Report := do
  let known := Caches.knownIn rows
  let grants := known.screenGrants rows.grants
  let ceilings ← known.screenCeilings rows.ceilings
  let values ← known.screenValues (fun job attr => ceilings.toCeilings[(job, attr)]?) rows.values
  takeAll rows grants values ceilings

/-- Replaces a role and its grants; without a row of the role, drops it. -/
def reloadGrants (id : RoleId) (role : Option Role) (rows : List Grant) : Update Report :=
  match role with
  | none => forget id
  | some row => do
    let grants := ((← get).knownFor id row).screenGrants rows
    hold row
    writeGrants [id] grants

/-- Replaces a role and its values; without a row of the role, drops it. -/
def reloadValues (id : RoleId) (role : Option Role) (rows : List RoleValue) : Update Report :=
  match role with
  | none => forget id
  | some row => do
    let caches ← get
    let values ← (caches.knownFor id row).screenValues caches.ceiling rows
    hold row
    writeValues [id] values

/-- Writes the roles and screened rows of a job in the place of what is held for it and for the
roles it had and has now. -/
def takeJob (job : String) (roles : List Role)
    (grants : Screened (RoleId × PermissionId × Bool))
    (values : Screened (RoleId × AttributeId × AttributeValue))
    (ceilings : Screened ((String × AttributeId) × AttributeValue)) : Update Report := do
  let affected := (← get).roles.jobRoles job ++ roles.map (·.id)
  let replaced ← Field.roles.write (·.replaceJob job roles)
  let grantReport ← writeGrants affected grants
  let valueReport ← writeValues affected values
  let ceilingReport ← writeCeilings [job] ceilings
  pure (replaced + grantReport + valueReport + ceilingReport)

/-- Replaces the roles and ceilings of a job, and the grants and values of the roles it had and of
those it has now.  Rows of other jobs are left out. -/
def reloadJob (job : String) (rows : Caches.JobRows) : Update Report := do
  let roles := rows.roles.filter (·.job = job)
  let known := (← get).knownAmong roles
  let grants := known.screenGrants rows.grants
  let ceilings ← known.screenCeilings (rows.ceilings.filter (·.job = job))
  let values ← known.screenValues (fun job attr => ceilings.toCeilings[(job, attr)]?) rows.values
  takeJob job roles grants values ceilings

end Update

end GradedAccess
