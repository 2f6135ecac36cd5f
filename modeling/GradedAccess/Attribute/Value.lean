import GradedAccess.Attribute.JobGrades
import GradedAccess.Fault

/-!
# Attribute values

A value has the shape of one of the three kinds of attribute, and `kind` reads the kind off the
shape.  Whoever pairs a value with an attribute has to make sure the kinds agree: `orDefault` does
it for a value that may be missing, and `check` does it for a value and its two limits before it
keeps the value to them.
-/

namespace GradedAccess

namespace AttributeKind

/-- The kind of a stored name. -/
def named (name : String) : Except Fault AttributeKind :=
  match ofName? name with
  | some kind => .ok kind
  | none => .error (.unknownKind name)

end AttributeKind

/-- The value of an attribute. -/
inductive AttributeValue where
  | strings (list : StringList)
  | jobs (list : StringList)
  | grades (list : JobGrades)
  deriving DecidableEq

namespace AttributeValue

/-- The kind of attribute a value has the shape of. -/
def kind : AttributeValue → AttributeKind
  | strings _ => .stringList
  | jobs _ => .jobList
  | grades _ => .jobGradeList

/-- The value of a kind that holds nothing. -/
def empty : AttributeKind → AttributeValue
  | .stringList => strings {}
  | .jobList => jobs {}
  | .jobGradeList => grades {}

/-- Whether a value holds nothing. -/
def isEmpty : AttributeValue → Bool
  | strings list | jobs list => list.isEmpty
  | grades list => list.isEmpty

/-- The entries of a value that make up guard names: its strings, or its jobs. -/
def flat : AttributeValue → List String
  | strings list | jobs list => list.strings
  | grades list => list.codes

/-- The list of strings of a value that has one. -/
def stringList? : AttributeValue → Option StringList
  | strings list | jobs list => some list
  | grades _ => none

/-- The job grade list of a value that has one. -/
def jobGrades? : AttributeValue → Option JobGrades
  | strings _ | jobs _ => none
  | grades list => some list

/-- Succeeds for a value of the kind. -/
def ensureKind (kind : AttributeKind) (value : AttributeValue) : Except Fault Unit :=
  if value.kind = kind then .ok () else .error (.kindMismatch value.kind kind)

/-- A value of the kind: the one that is given, or the one that holds nothing. -/
def orDefault (kind : AttributeKind) : Option AttributeValue → Except Fault AttributeValue
  | none => .ok (empty kind)
  | some value => do
    value.ensureKind kind
    pure value

/-- A value kept to its limits, regardless of kinds. -/
def limited (valid most : Option AttributeValue) : AttributeValue → Checked AttributeValue
  | strings list =>
    (list.check (valid.bind stringList?) (most.bind stringList?)).map strings
  | jobs list =>
    (list.check (valid.bind stringList?) (most.bind stringList?)).map jobs
  | grades list =>
    (list.check (valid.bind jobGrades?) (most.bind jobGrades?)).map grades

/-- What a check reports about a value. -/
structure CheckOutcome where
  /-- Whether the value could be kept, apart from single entries. -/
  ok : Bool
  /-- Whether anything was dropped or lowered. -/
  changed : Bool
  deriving DecidableEq, Repr

/-- Keeps the value to its limits. -/
def clamp (valid most : Option AttributeValue) : InPlace AttributeValue CheckOutcome := do
  let kept := limited valid most (← get)
  set kept.value
  pure ⟨kept.ok, kept.changed⟩

theorem clamp_eq (valid most : Option AttributeValue) (value : AttributeValue) :
    clamp valid most value =
      (.ok ⟨(limited valid most value).ok, (limited valid most value).changed⟩,
        (limited valid most value).value) := rfl

/-- Checks the value.  First come the kinds, of the value and of one limit after the other, and then
it is kept to its limits. -/
def checkInPlace (kind : AttributeKind) (valid most : Option AttributeValue) :
    InPlace AttributeValue CheckOutcome := do
  (← get).ensureKind kind
  liftM (valid.forM (ensureKind kind))
  liftM (most.forM (ensureKind kind))
  clamp valid most

/-- What a check that goes through finds and leaves. -/
def check (kind : AttributeKind) (valid most : Option AttributeValue) (value : AttributeValue) :
    Except Fault (Checked AttributeValue) :=
  match checkInPlace kind valid most value with
  | (.ok outcome, left) => .ok ⟨left, outcome.ok, outcome.changed⟩
  | (.error fault, _) => .error fault

@[simp] theorem kind_empty (kind : AttributeKind) : (empty kind).kind = kind := by
  cases kind <;> rfl

end AttributeValue

end GradedAccess
