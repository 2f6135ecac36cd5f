import GradedAccess.Attribute.Value
import GradedAccess.Text.Blank
import GradedAccess.Text.Slug

/-!
# Permissions and their attributes

A permission is found by its guard name, and an attribute by its permission and key.  `make?`
builds a row of either kind from what a caller supplies and refuses what could never be found
again or never hold a value: a permission without a guard name, an attribute with a blank key, and
an attribute whose valid values are of another kind.
-/

namespace GradedAccess

/-- Something a role can be allowed to do. -/
structure Permission where
  id : PermissionId
  category : String
  name : String
  guard : String
  order : Int32
  deriving DecidableEq

/-- A permission with the guard name its category and name make. -/
def Permission.make? (id : PermissionId) (category name : String) (order : Int32) :
    Except Fault Permission :=
  let guard := guardName category name
  if guard.isEmpty then .error (.guardless category name)
  else .ok ⟨id, category, name, guard, order⟩

/-- Something about a permission that varies by role. -/
structure Attribute where
  id : AttributeId
  permission : PermissionId
  key : String
  kind : AttributeKind
  valid : AttributeValue
  deriving DecidableEq

/-- An attribute whose valid values are of its kind; missing ones are the values that hold
nothing. -/
def Attribute.make? (id : AttributeId) (permission : PermissionId) (key : String)
    (kind : AttributeKind) (valid : Option AttributeValue) : Except Fault Attribute :=
  if isBlank key then .error (.keyless id permission)
  else do
    let valid ← AttributeValue.orDefault kind valid
    pure ⟨id, permission, key, kind, valid⟩

end GradedAccess
