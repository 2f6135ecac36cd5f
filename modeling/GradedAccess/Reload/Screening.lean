import GradedAccess.PairTable
import GradedAccess.Role
import GradedAccess.Permission

/-!
# Screening rows

Rows from a store are screened before they reach a cache.  A row that refers to something unknown
is skipped.  What is left of the others is what the caches may hold: a missing value becomes the
value that holds nothing, and the value of a role is kept to the valid values of its attribute and
to the ceiling of the role's job.

Every row gets a `Verdict`, and the verdicts are counted.  A row whose value is of another kind
than its attribute is a fault, and so no row of the reload is used.
-/

namespace GradedAccess

/-- What becomes of a row. -/
inductive Verdict (α : Type) where
  /-- The row refers to something unknown. -/
  | skip
  /-- The row is used, perhaps with a value that had to be changed. -/
  | keep (entry : α) (clamped : Bool)

namespace Verdict

variable {α : Type}

/-- What is used of a row. -/
def entry? : Verdict α → Option α
  | skip => none
  | keep entry _ => some entry

/-- Whether a row is skipped. -/
def isSkip : Verdict α → Bool
  | skip => true
  | keep .. => false

/-- Whether a row is used with a changed value. -/
def isClamped : Verdict α → Bool
  | skip => false
  | keep _ clamped => clamped

end Verdict

/-- The rows that are used, and how many were skipped and changed. -/
structure Screened (α : Type) where
  entries : List α
  skipped : Nat
  clamped : Nat

/-- Counts verdicts. -/
def Screened.ofVerdicts {α : Type} (verdicts : List (Verdict α)) : Screened α where
  entries := verdicts.filterMap Verdict.entry?
  skipped := verdicts.countP Verdict.isSkip
  clamped := verdicts.countP Verdict.isClamped

/-- What rows may refer to. -/
structure Known where
  /-- The job of a known role. -/
  jobOf : RoleId → Option String
  /-- Whether a permission is known. -/
  permission : PermissionId → Bool
  /-- A known attribute. -/
  attr : AttributeId → Option Attribute

/-- The ceilings of a reload, by job and attribute. -/
abbrev Ceilings := PairTable String AttributeId AttributeValue

namespace Known

variable (known : Known)

/-- The verdict on a grant. -/
def grantVerdict (row : Grant) : Verdict (RoleId × PermissionId × Bool) :=
  if (known.jobOf row.role).isSome && known.permission row.permission then
    .keep (row.role, row.permission, row.value) false
  else .skip

/-- The verdict on a ceiling. -/
def ceilingVerdict (row : Ceiling) :
    Except Fault (Verdict ((String × AttributeId) × AttributeValue)) :=
  match known.attr row.attr with
  | none => .ok .skip
  | some attr => do
    let most ← AttributeValue.orDefault attr.kind row.most
    pure (.keep ((row.job, row.attr), most) false)

/-- The verdict on a role value. -/
def valueVerdict (ceiling : String → AttributeId → Option AttributeValue) (row : RoleValue) :
    Except Fault (Verdict (RoleId × AttributeId × AttributeValue)) :=
  match known.jobOf row.role, known.attr row.attr with
  | some job, some attr => do
    let value ← AttributeValue.orDefault attr.kind row.value
    let checked ← value.check attr.kind (some attr.valid) (ceiling job attr.id)
    pure (.keep (row.role, row.attr, checked.value) checked.changed)
  | _, _ => .ok .skip

/-- Screens grants. -/
def screenGrants (rows : List Grant) : Screened (RoleId × PermissionId × Bool) :=
  .ofVerdicts (rows.map known.grantVerdict)

/-- Screens ceilings. -/
def screenCeilings (rows : List Ceiling) :
    Except Fault (Screened ((String × AttributeId) × AttributeValue)) := do
  pure (.ofVerdicts (← rows.mapM known.ceilingVerdict))

/-- Screens role values. -/
def screenValues (ceiling : String → AttributeId → Option AttributeValue) (rows : List RoleValue) :
    Except Fault (Screened (RoleId × AttributeId × AttributeValue)) := do
  pure (.ofVerdicts (← rows.mapM (known.valueVerdict ceiling)))

end Known

/-- The table of screened ceilings: of several rows for one job and attribute the last counts. -/
def Screened.toCeilings (screened : Screened ((String × AttributeId) × AttributeValue)) :
    Ceilings :=
  .ofList screened.entries _

end GradedAccess
