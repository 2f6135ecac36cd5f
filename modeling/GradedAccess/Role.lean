import GradedAccess.Attribute.Value

/-!
# Roles and what is set for them

A role is one grade of one job.  Three kinds of row say what holds for it: a grant allows or
forbids its role a permission, a role value gives its role a value of an attribute, and a ceiling
limits the values of an attribute for all roles of a job.  A missing value or maximum is a row of
its own: it stands for the value that holds nothing, which is not the same as no row.
-/

namespace GradedAccess

/-- A grade of a job that rows can be set for. -/
structure Role where
  id : RoleId
  job : String
  grade : Grade
  deriving DecidableEq

/-- Whether a role is allowed a permission. -/
structure Grant where
  role : RoleId
  permission : PermissionId
  value : Bool
  deriving DecidableEq

/-- The value of an attribute for a role. -/
structure RoleValue where
  role : RoleId
  attr : AttributeId
  value : Option AttributeValue
  deriving DecidableEq

/-- The most a job may have of an attribute. -/
structure Ceiling where
  job : String
  attr : AttributeId
  most : Option AttributeValue
  deriving DecidableEq

end GradedAccess
