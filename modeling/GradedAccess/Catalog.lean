import GradedAccess.Permission
import GradedAccess.Reconcile

/-!
# The catalog

The cached permissions and attributes.  A permission is found by its number and by its guard, an
attribute by its number and by its permission and key.

Both kinds of row are replaced as a whole.  Of the guards only those of the fresh permissions
remain.  The keys of attributes are kept by number: a key remains as long as the attribute it
leads to does.
-/

namespace GradedAccess

open Std (ExtTreeMap)

/-- The cached permissions and attributes. -/
structure Catalog where
  permissions : ExtTreeMap PermissionId Permission := ∅
  guards : ExtTreeMap String PermissionId := ∅
  attributes : ExtTreeMap AttributeId Attribute := ∅
  keys : PairTable PermissionId String AttributeId := ∅
  deriving DecidableEq

namespace Catalog

/-- The number of the permission with a guard. -/
def permissionId (catalog : Catalog) (guard : String) : Option PermissionId :=
  catalog.guards[guard]?

/-- The permission of a number. -/
def permission (catalog : Catalog) (id : PermissionId) : Option Permission :=
  catalog.permissions[id]?

/-- The attribute of a number. -/
def attr (catalog : Catalog) (id : AttributeId) : Option Attribute :=
  catalog.attributes[id]?

/-- The attribute of a permission with a key. -/
def attributeByKey (catalog : Catalog) (permission : PermissionId) (key : String) :
    Option Attribute :=
  catalog.keys[(permission, key)]?.bind catalog.attr

/-- Replaces all permissions. -/
def replacePermissions (catalog : Catalog) (rows : List Permission) : Catalog × Tally :=
  let permissions := .ofList (rows.map fun row => (row.id, row))
  let gone := catalog.permissions.keys.filter fun id => !permissions.contains id
  ({ catalog with
      permissions
      guards := .ofList (rows.map fun row => (row.guard, row.id)) },
    ⟨rows.length, gone.length⟩)

/-- Replaces all attributes. -/
def replaceAttributes (catalog : Catalog) (rows : List Attribute) : Catalog × Tally :=
  let attributes := .ofList (rows.map fun row => (row.id, row))
  let gone := catalog.attributes.keys.filter fun id => !attributes.contains id
  let kept := catalog.keys.filter fun _ id => attributes.contains id
  ({ catalog with
      attributes
      keys := rows.foldl (fun keys row => keys.insert (row.permission, row.key) row.id) kept },
    ⟨rows.length, gone.length⟩)

end Catalog

end GradedAccess
