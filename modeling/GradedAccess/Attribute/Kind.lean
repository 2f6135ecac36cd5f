/-!
# Kinds of attribute

An attribute of a permission holds one of three kinds of value: free strings, jobs, or grades per
job.  The names here are the ones under which kinds are stored.
-/

namespace GradedAccess

/-- The kind of value an attribute holds. -/
inductive AttributeKind where
  | stringList
  | jobList
  | jobGradeList
  deriving DecidableEq, Repr

namespace AttributeKind

/-- All kinds, in their order of declaration. -/
def all : List AttributeKind := [.stringList, .jobList, .jobGradeList]

/-- The stored name of a kind. -/
def name : AttributeKind → String
  | .stringList => "StringList"
  | .jobList => "JobList"
  | .jobGradeList => "JobGradeList"

/-- The kind of a stored name. -/
def ofName? (name : String) : Option AttributeKind :=
  all.find? (·.name == name)

theorem mem_all (kind : AttributeKind) : kind ∈ all := by
  cases kind <;> decide

@[simp] theorem ofName?_name (kind : AttributeKind) : ofName? kind.name = some kind := by
  cases kind <;> rfl

end AttributeKind

end GradedAccess
