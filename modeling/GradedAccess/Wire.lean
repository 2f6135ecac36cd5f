import GradedAccess.Identity
import GradedAccess.Json.Form
import GradedAccess.Json.Reader
import GradedAccess.Json.Writer
import GradedAccess.Permission
import GradedAccess.Role

/-!
# Written forms

How the types of the domain are written as JSON and read back.  Every record names its fields in
the order in which they are written.  Reading a record checks the form and nothing else: the guard
name of a permission is taken as it was written, and so is the kind of an attribute beside a value
of another kind.

Optional parts are written as `null`.  The lists of an attribute value have a default for each of
their fields; no other record has one.
-/

namespace GradedAccess

namespace Json

/-- An unsigned number. -/
def ofUInt64 (n : UInt64) : Json := .integer n.toNat

/-- A signed number. -/
def ofInt32 (n : Int32) : Json := .integer n.toInt

/-- A value that may be absent. -/
def ofOption {α : Type} (toJson : α → Json) : Option α → Json
  | none => .null
  | some value => toJson value

end Json

open Json (Field)

/-! ## Identifiers and names -/

namespace Id

variable {entity : Entity}

/-- An identifier is written as its number. -/
def toJson (id : Id entity) : Json := Json.ofUInt64 id.num

/-- Reads an identifier. -/
def ofJson? (json : Json) : Option (Id entity) := json.uint64?.map Id.mk

end Id

namespace AttributeKind

/-- A kind is written as its name. -/
def toJson (kind : AttributeKind) : Json := .text kind.name

/-- Reads a kind. -/
def ofJson? (json : Json) : Option AttributeKind := json.name?.bind ofName?

end AttributeKind

namespace Subject

/-- A subject is written as the name of its case. -/
def toJson (subject : Subject) : Json := .text subject.caseName

/-- Reads a subject. -/
def ofJson? (json : Json) : Option Subject := json.name?.bind ofCaseName?

end Subject

/-! ## Attribute values -/

namespace StringList

/-- A string list is written as a record of its strings. -/
def toJson (list : StringList) : Json :=
  .record [("strings", .array (list.strings.map .text))]

/-- Reads a string list. -/
def ofJson? (json : Json) : Option StringList := do
  let [strings] ← json.fields? ["strings"] | none
  let strings ← strings.orElse (Json.list? Json.text?) []
  pure { strings }

end StringList

namespace JobGrades

/-- A job grade list is written with both maps, jobs in ascending order. -/
def toJson (list : JobGrades) : Json :=
  .record [("fineGrained", .bool list.fineGrained),
    ("jobs", .record (list.jobs.toList.map fun entry => (entry.1, .ofInt32 entry.2))),
    ("grades", .record (list.grades.toList.map fun entry =>
      (entry.1, .array (entry.2.map .ofInt32))))]

/-- Reads a job grade list.  In a map a job that occurs again replaces the earlier entry. -/
def ofJson? (json : Json) : Option JobGrades := do
  let [fineGrained, jobs, grades] ← json.fields? ["fineGrained", "jobs", "grades"] | none
  let fineGrained ← fineGrained.orElse Json.bool? false
  let jobs ← jobs.orElse (Json.entries? Json.int32?) []
  let grades ← grades.orElse (Json.entries? (Json.list? Json.int32?)) []
  pure { fineGrained, jobs := .ofList jobs, grades := .ofList grades }

end JobGrades

namespace AttributeValue

/-- The name under which a value is written. -/
def caseName : AttributeValue → String
  | strings _ => "stringList"
  | jobs _ => "jobList"
  | grades _ => "jobGradeList"

/-- An attribute value is written as an object with its case as the only key. -/
def toJson (value : AttributeValue) : Json :=
  .record [(value.caseName, match value with
    | strings list | jobs list => list.toJson
    | grades list => list.toJson)]

/-- Reads an attribute value. -/
def ofJson? (json : Json) : Option AttributeValue := do
  match ← json.case? with
  | ("stringList", list) => (StringList.ofJson? list).map strings
  | ("jobList", list) => (StringList.ofJson? list).map jobs
  | ("jobGradeList", list) => (JobGrades.ofJson? list).map grades
  | _ => none

end AttributeValue

/-! ## Records -/

namespace Identity

/-- Writes an identity. -/
def toJson (identity : Identity) : Json :=
  .record [("user_id", .ofUInt64 identity.user), ("job", .text identity.job),
    ("grade", .ofInt32 identity.grade), ("superuser", .bool identity.superuser)]

/-- Reads an identity. -/
def ofJson? (json : Json) : Option Identity := do
  let [user, job, grade, superuser] ← json.fields? ["user_id", "job", "grade", "superuser"] | none
  pure {
    user := ← user.required Json.uint64?
    job := ← job.required Json.text?
    grade := ← grade.required Json.int32?
    superuser := ← superuser.required Json.bool? }

end Identity

namespace Permission

/-- Writes a permission. -/
def toJson (permission : Permission) : Json :=
  .record [("id", permission.id.toJson), ("category", .text permission.category),
    ("name", .text permission.name), ("guard_name", .text permission.guard),
    ("order", .ofInt32 permission.order)]

/-- Reads a permission. -/
def ofJson? (json : Json) : Option Permission := do
  let [id, category, name, guard, order] ←
    json.fields? ["id", "category", "name", "guard_name", "order"] | none
  pure {
    id := ← id.required Id.ofJson?
    category := ← category.required Json.text?
    name := ← name.required Json.text?
    guard := ← guard.required Json.text?
    order := ← order.required Json.int32? }

end Permission

namespace Attribute

/-- Writes an attribute. -/
def toJson (attr : Attribute) : Json :=
  .record [("id", attr.id.toJson), ("permission_id", attr.permission.toJson),
    ("key", .text attr.key), ("attribute_type", attr.kind.toJson),
    ("valid_values", attr.valid.toJson)]

/-- Reads an attribute. -/
def ofJson? (json : Json) : Option Attribute := do
  let [id, permission, key, kind, valid] ←
    json.fields? ["id", "permission_id", "key", "attribute_type", "valid_values"] | none
  pure {
    id := ← id.required Id.ofJson?
    permission := ← permission.required Id.ofJson?
    key := ← key.required Json.text?
    kind := ← kind.required AttributeKind.ofJson?
    valid := ← valid.required AttributeValue.ofJson? }

end Attribute

namespace Role

/-- Writes a role. -/
def toJson (role : Role) : Json :=
  .record [("id", role.id.toJson), ("job", .text role.job), ("grade", .ofInt32 role.grade)]

/-- Reads a role. -/
def ofJson? (json : Json) : Option Role := do
  let [id, job, grade] ← json.fields? ["id", "job", "grade"] | none
  pure {
    id := ← id.required Id.ofJson?
    job := ← job.required Json.text?
    grade := ← grade.required Json.int32? }

end Role

namespace Grant

/-- Writes a grant. -/
def toJson (grant : Grant) : Json :=
  .record [("role_id", grant.role.toJson), ("permission_id", grant.permission.toJson),
    ("value", .bool grant.value)]

/-- Reads a grant. -/
def ofJson? (json : Json) : Option Grant := do
  let [role, permission, value] ← json.fields? ["role_id", "permission_id", "value"] | none
  pure {
    role := ← role.required Id.ofJson?
    permission := ← permission.required Id.ofJson?
    value := ← value.required Json.bool? }

end Grant

namespace RoleValue

/-- Writes a role value. -/
def toJson (row : RoleValue) : Json :=
  .record [("role_id", row.role.toJson), ("attribute_id", row.attr.toJson),
    ("value", .ofOption AttributeValue.toJson row.value)]

/-- Reads a role value. -/
def ofJson? (json : Json) : Option RoleValue := do
  let [role, attr, value] ← json.fields? ["role_id", "attribute_id", "value"] | none
  pure {
    role := ← role.required Id.ofJson?
    attr := ← attr.required Id.ofJson?
    value := ← value.optional AttributeValue.ofJson? }

end RoleValue

namespace Ceiling

/-- Writes a ceiling. -/
def toJson (ceiling : Ceiling) : Json :=
  .record [("job", .text ceiling.job), ("attribute_id", ceiling.attr.toJson),
    ("max_values", .ofOption AttributeValue.toJson ceiling.most)]

/-- Reads a ceiling. -/
def ofJson? (json : Json) : Option Ceiling := do
  let [job, attr, most] ← json.fields? ["job", "attribute_id", "max_values"] | none
  pure {
    job := ← job.required Json.text?
    attr := ← attr.required Id.ofJson?
    most := ← most.optional AttributeValue.ofJson? }

end Ceiling

/-! ## Texts -/

/-- The value of a type that a text holds. -/
def parse? {α : Type} (ofJson? : Json → Option α) (text : String) : Option α :=
  (Json.read? text).bind ofJson?

end GradedAccess
