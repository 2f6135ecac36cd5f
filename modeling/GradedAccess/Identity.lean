import GradedAccess.Attribute.JobGrades

/-!
# Identities

An identity is what is known about whoever asks: the user, the job they are on, their grade in it,
and whether they are a superuser.  A superuser keeps the job context and is allowed everything.
-/

namespace GradedAccess

/-- Who asks. -/
structure Identity where
  user : UInt64
  job : String
  grade : Grade
  superuser : Bool := false
  deriving DecidableEq

end GradedAccess
