import GradedAccess.Id

/-!
# Invalidation events

Whoever changes rows of the store announces it, and every engine reloads what the announcement
names.  There are three subjects, one for each way rows change: the grants of a role, the
attribute values of a role, and the attribute ceilings of a job.
-/

namespace GradedAccess

/-- What an announcement is about. -/
inductive Subject where
  | roleGrants
  | roleValues
  | jobCeilings
  deriving DecidableEq, Repr

namespace Subject

/-- All subjects, in the order in which their streams are joined. -/
def all : List Subject := [.roleGrants, .roleValues, .jobCeilings]

/-- The name of a subject on the bus. -/
def name : Subject → String
  | .roleGrants => "perms.roleperm.update"
  | .roleValues => "perms.roleattr.update"
  | .jobCeilings => "perms.jobattr.update"

/-- The subject of a name on the bus. -/
def ofName? (name : String) : Option Subject :=
  all.find? (·.name == name)

/-- The name of a subject as a case. -/
def caseName : Subject → String
  | .roleGrants => "RolePermUpdate"
  | .roleValues => "RoleAttrUpdate"
  | .jobCeilings => "JobAttrUpdate"

/-- The subject of the name of a case. -/
def ofCaseName? (name : String) : Option Subject :=
  all.find? (·.caseName == name)

theorem mem_all (subject : Subject) : subject ∈ all := by
  cases subject <;> decide

@[simp] theorem ofName?_name (subject : Subject) : ofName? subject.name = some subject := by
  cases subject <;> rfl

@[simp] theorem ofCaseName?_caseName (subject : Subject) :
    ofCaseName? subject.caseName = some subject := by
  cases subject <;> rfl

end Subject

/-- An announcement that rows have changed. -/
inductive Event where
  | roleGrants (role : RoleId)
  | roleValues (role : RoleId)
  | jobCeilings (job : String)
  deriving DecidableEq, Repr

/-- What an event is about. -/
def Event.subject : Event → Subject
  | .roleGrants _ => .roleGrants
  | .roleValues _ => .roleValues
  | .jobCeilings _ => .jobCeilings

end GradedAccess
