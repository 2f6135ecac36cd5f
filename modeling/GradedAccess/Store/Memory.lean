import GradedAccess.PairTable
import GradedAccess.Store.Request

/-!
# The store in memory

A complete store without a database.  It keeps the rows consistent by refusing every change that
would break a rule: a guard, a key of a permission and a slot of a role are each used once, and a
row may only refer to rows that exist.  Deleting a role deletes its grants and values with it.

All numbers come from one counter.  A permission and an attribute take their number before the row
is checked, so a refused row may use one up.  `next` counts on without an end, and a row gets as
much of it as a number has room for: after `2 ^ 64` rows the numbers start again.
-/

namespace GradedAccess

open Std (ExtTreeMap)

/-- The rows of a store in memory, and the count the number of the next row is taken from. -/
structure MemoryStore where
  permissions : ExtTreeMap PermissionId Permission := ∅
  attributes : ExtTreeMap AttributeId Attribute := ∅
  roles : ExtTreeMap RoleId Role := ∅
  grants : PairTable RoleId PermissionId Bool := ∅
  values : PairTable RoleId AttributeId (Option AttributeValue) := ∅
  ceilings : PairTable String AttributeId (Option AttributeValue) := ∅
  next : Nat := 1
  deriving DecidableEq

namespace MemoryStore

/-- The number the next row gets. -/
def nextId {entity : Entity} (store : MemoryStore) : Id entity := ⟨.ofNat store.next⟩

/-- The store after a number has been taken. -/
def advance (store : MemoryStore) : MemoryStore := { store with next := store.next + 1 }

/-- Succeeds for a role that exists. -/
def ensureRole (store : MemoryStore) (role : RoleId) : Except Fault Unit :=
  if store.roles.contains role then .ok () else .error (.noRole role)

/-- Succeeds for a permission that exists. -/
def ensurePermission (store : MemoryStore) (permission : PermissionId) : Except Fault Unit :=
  if store.permissions.contains permission then .ok () else .error (.noPermission permission)

/-- Succeeds for an attribute that exists. -/
def ensureAttribute (store : MemoryStore) (attr : AttributeId) : Except Fault Unit :=
  if store.attributes.contains attr then .ok () else .error (.noAttribute attr)

/-- A change that happens when nothing forbids it. -/
def guarded (store : MemoryStore) (allowed : Except Fault Unit) (changed : MemoryStore) :
    Except Fault Unit × MemoryStore :=
  match allowed with
  | .ok () => (.ok (), changed)
  | .error fault => (.error fault, store)

/-! ## Roles and what is set for them -/

/-- Creates the role of a slot. -/
def createRole (store : MemoryStore) (job : String) (grade : Grade) :
    Except Fault Role × MemoryStore :=
  if store.roles.toList.any fun entry => entry.2.job = job && entry.2.grade = grade then
    (.error (.roleTaken job grade), store)
  else
    let role : Role := ⟨store.nextId, job, grade⟩
    (.ok role, { store.advance with roles := store.roles.insert role.id role })

/-- Deletes a role with its grants and values. -/
def deleteRole (store : MemoryStore) (role : RoleId) : Except Fault Unit × MemoryStore :=
  store.guarded (store.ensureRole role) { store with
    roles := store.roles.erase role
    grants := store.grants.dropRow role
    values := store.values.dropRow role }

/-- Sets what a role is granted; no value takes the grant back. -/
def setGrant (store : MemoryStore) (role : RoleId) (permission : PermissionId)
    (value : Option Bool) : Except Fault Unit × MemoryStore :=
  store.guarded (do store.ensureRole role; store.ensurePermission permission) { store with
    grants := match value with
      | some value => store.grants.insert (role, permission) value
      | none => store.grants.erase (role, permission) }

/-- Sets the value of an attribute for a role. -/
def setValue (store : MemoryStore) (role : RoleId) (attr : AttributeId)
    (value : Option AttributeValue) : Except Fault Unit × MemoryStore :=
  store.guarded (do store.ensureRole role; store.ensureAttribute attr)
    { store with values := store.values.insert (role, attr) value }

/-- Removes the value of an attribute for a role, if there is one. -/
def removeValue (store : MemoryStore) (role : RoleId) (attr : AttributeId) : MemoryStore :=
  { store with values := store.values.erase (role, attr) }

/-- Sets the most a job may have of an attribute. -/
def setCeiling (store : MemoryStore) (job : String) (attr : AttributeId)
    (most : Option AttributeValue) : Except Fault Unit × MemoryStore :=
  store.guarded (store.ensureAttribute attr)
    { store with ceilings := store.ceilings.insert (job, attr) most }

/-- Removes the most a job may have of an attribute, if it is set. -/
def removeCeiling (store : MemoryStore) (job : String) (attr : AttributeId) : MemoryStore :=
  { store with ceilings := store.ceilings.erase (job, attr) }

/-! ## Permissions and attributes -/

/-- Creates a permission. -/
def createPermission (store : MemoryStore) (new : NewPermission) :
    Except Fault Permission × MemoryStore :=
  match Permission.make? store.nextId new.category new.name new.order with
  | .error fault => (.error fault, store.advance)
  | .ok row =>
    if store.permissions.toList.any fun entry => entry.2.guard = row.guard then
      (.error (.permissionTaken row.guard), store.advance)
    else (.ok row, { store.advance with permissions := store.permissions.insert row.id row })

/-- Succeeds when a permission exists and has no attribute with the key. -/
def ensureFreeKey (store : MemoryStore) (permission : PermissionId) (key : String) :
    Except Fault Unit := do
  store.ensurePermission permission
  if store.attributes.toList.any fun entry =>
      entry.2.permission = permission && entry.2.key = key then
    throw (.attributeTaken key permission)

/-- Creates an attribute. -/
def createAttribute (store : MemoryStore) (new : NewAttribute) :
    Except Fault Attribute × MemoryStore :=
  match store.ensureFreeKey new.permission new.key with
  | .error fault => (.error fault, store)
  | .ok () =>
    match Attribute.make? store.nextId new.permission new.key new.kind new.valid with
    | .error fault => (.error fault, store.advance)
    | .ok row => (.ok row, { store.advance with attributes := store.attributes.insert row.id row })

/-- Changes the kind and the valid values of an attribute. -/
def redefine (store : MemoryStore) (id : AttributeId) (kind : AttributeKind)
    (valid : Option AttributeValue) : Except Fault Unit × MemoryStore :=
  match store.attributes[id]? with
  | none => (.error (.noAttribute id), store)
  | some row =>
    match Attribute.make? id row.permission row.key kind valid with
    | .error fault => (.error fault, store)
    | .ok row => (.ok (), { store with attributes := store.attributes.insert id row })

/-! ## Listings -/

/-- The roles of a job, or all, by number. -/
def listRoles (store : MemoryStore) (job : Option String) : List Role :=
  store.roles.values.filter (belongsTo job ·.job)

/-- The grants of a role, or all, by role and permission. -/
def listGrants (store : MemoryStore) (role : Option RoleId) : List Grant :=
  (store.grants.toList.map fun entry => ⟨entry.1.1, entry.1.2, entry.2⟩).filter
    (belongsTo role ·.role)

/-- The values of a role, or all, by role and attribute. -/
def listValues (store : MemoryStore) (role : Option RoleId) : List RoleValue :=
  (store.values.toList.map fun entry => ⟨entry.1.1, entry.1.2, entry.2⟩).filter
    (belongsTo role ·.role)

/-- The ceilings of a job, or all, by job and attribute. -/
def listCeilings (store : MemoryStore) (job : Option String) : List Ceiling :=
  (store.ceilings.toList.map fun entry => ⟨entry.1.1, entry.1.2, entry.2⟩).filter
    (belongsTo job ·.job)

/-- All rows. -/
def rows (store : MemoryStore) : Rows where
  permissions := store.permissions.values
  attributes := store.attributes.values
  roles := store.listRoles none
  grants := store.listGrants none
  values := store.listValues none
  ceilings := store.listCeilings none

/-- The answer to a request. -/
def answer {α : Type} (request : Request α) (store : MemoryStore) :
    Except Fault α × MemoryStore :=
  match request with
  | .permissions => (.ok store.permissions.values, store)
  | .attributes => (.ok store.attributes.values, store)
  | .roles job => (.ok (store.listRoles job), store)
  | .role id => (.ok store.roles[id]?, store)
  | .grants role => (.ok (store.listGrants role), store)
  | .values role => (.ok (store.listValues role), store)
  | .ceilings job => (.ok (store.listCeilings job), store)
  | .createPermission new => store.createPermission new
  | .createAttribute new => store.createAttribute new
  | .redefine id kind valid => store.redefine id kind valid

end MemoryStore

end GradedAccess
