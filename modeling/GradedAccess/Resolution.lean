import GradedAccess.Caches
import GradedAccess.Identity

/-!
# Resolution

How the caches answer an access check.  What counts for a grade of a job are the rows of its chain,
and a higher grade is heard before a lower one: the first role that says anything about a
permission decides it, and the first role that has a value of an attribute supplies it.  Where no
role says anything, a permission is refused and an attribute has no value.

A superuser is allowed every permission, known or not, and has all valid values of an attribute.

Two lists describe all of a grade at once.  `flattened` turns every entry of every value along the
chain into a guard name.  `effective` has the permissions that resolve to allowed, in the order in
which they are shown.
-/

namespace GradedAccess

open Std (ExtTreeSet)

namespace Caches

variable (caches : Caches)

/-- The number of a permission. -/
def permissionId (category name : String) : Option PermissionId :=
  caches.catalog.permissionId (guardName category name)

/-- Whether a grade of a job is allowed a permission. -/
def resolve (job : String) (grade : Grade) (permission : PermissionId) : Bool :=
  ((caches.roles.chain job grade).reverse.findSome? (caches.grant · permission)).getD false

/-- Whether an identity is allowed a permission. -/
def can (identity : Identity) (category name : String) : Bool :=
  identity.superuser ||
    (caches.permissionId category name).any (caches.resolve identity.job identity.grade)

/-- The value of an attribute for a grade of a job. -/
def resolveValue (job : String) (grade : Grade) (attr : AttributeId) : Option AttributeValue :=
  (caches.roles.chain job grade).reverse.findSome? (caches.value · attr)

/-- The value of an attribute for an identity, if the attribute is known and has one. -/
def attrOf (identity : Identity) (category name key : String) :
    Except Fault (Option AttributeValue) :=
  match (caches.permissionId category name).bind (caches.catalog.attributeByKey · key) with
  | none => .ok none
  | some attr =>
    if identity.superuser then .ok (some attr.valid)
    else
      match caches.resolveValue identity.job identity.grade attr.id with
      | none => .ok none
      | some value => do
        let value ← AttributeValue.orDefault attr.kind (some value)
        pure (some value)

/-- The guard names of the entries of a value, if its attribute and permission are known. -/
def entryGuards (attr : AttributeId) (value : AttributeValue) : List String :=
  match caches.catalog.attr attr with
  | none => []
  | some row =>
    match caches.catalog.permission row.permission with
    | none => []
    | some permission =>
      value.flat.map (attributeGuardName permission.category permission.name row.key)

/-- The guard names of all entries of all values along a chain. -/
def flattened (job : String) (grade : Grade) : ExtTreeSet String :=
  .ofList ((caches.roles.chain job grade).flatMap fun role =>
    (caches.values.row role).flatMap fun entry => caches.entryGuards entry.1 entry.2)

/-- Whether a permission is shown before another, or beside it. -/
def shownBefore (a b : Permission) : Bool :=
  (compare a.order b.order).then (compare a.guard b.guard) != .gt

/-- The permissions a grade of a job is allowed, as they are shown. -/
def effective (job : String) (grade : Grade) : List Permission :=
  let candidates := ExtTreeSet.ofList ((caches.roles.chain job grade).flatMap fun role =>
    (caches.grants.row role).map (·.1))
  ((candidates.toList.filter (caches.resolve job grade)).filterMap
    caches.catalog.permission).mergeSort shownBefore

end Caches

end GradedAccess
