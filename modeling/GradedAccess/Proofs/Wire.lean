import GradedAccess.Proofs.Json.Forms
import GradedAccess.Proofs.Tables

/-!
# Every type is read back from its text

A value of any type of the domain that is written as JSON is read back from the text as it was
(`parse_written`): whatever characters its strings hold, whatever its numbers are, and however its
lists and maps are filled.

There is one `roundTrips` for each type.  A type inside another enters through its own, so a change
to how one of them is written stays with it.  A record is opened by the names it declares, which
have to be those it is written with, in the same order; each field is then read on its own.
-/

namespace GradedAccess

open Json (RoundTrips bind_of_eq_some fields?_record_zip roundTrips_bool roundTrips_text
  roundTrips_int32 roundTrips_uint64)

/-! ## Identifiers and names -/

theorem Id.roundTrips {entity : Entity} : RoundTrips (toJson : Id entity → Json) ofJson? where
  plain id := roundTrips_uint64.plain id.num
  reads id := by
    rw [toJson, ofJson?, roundTrips_uint64.reads, Option.map_some]

theorem AttributeKind.roundTrips : RoundTrips toJson ofJson? where
  plain kind := .string kind.name
  reads kind := ofName?_name kind

theorem Subject.roundTrips : RoundTrips toJson ofJson? where
  plain subject := .string subject.caseName
  reads subject := ofCaseName?_caseName subject

/-! ## Attribute values -/

theorem StringList.roundTrips : RoundTrips toJson ofJson? where
  plain list := by
    refine .record ?_
    rw [List.forall_mem_singleton]
    exact roundTrips_text.list.plain list.strings
  reads list := by
    have hfields : list.toJson.fields? ["strings"] = some [.given _] :=
      fields?_record_zip _ [_] rfl (by decide)
    rw [ofJson?, bind_of_eq_some hfields]
    exact roundTrips_text.list.bind_orElse [] list.strings _

theorem JobGrades.roundTrips : RoundTrips toJson ofJson? where
  plain list := by
    have hjobs := roundTrips_int32.entries.plain list.jobs.toList
    have hgrades := roundTrips_int32.list.entries.plain list.grades.toList
    refine .record ?_
    simp only [List.forall_mem_cons, List.not_mem_nil]
    exact ⟨roundTrips_bool.plain _, hjobs, hgrades, nofun⟩
  reads list := by
    have hfields : list.toJson.fields? ["fineGrained", "jobs", "grades"] =
        some [.given _, .given _, .given _] :=
      fields?_record_zip _ [_, _, _] rfl (by decide)
    rw [ofJson?, bind_of_eq_some hfields]
    simp only [roundTrips_bool.bind_orElse, roundTrips_int32.entries.bind_orElse,
      roundTrips_int32.list.entries.bind_orElse, PairTable.ofList_toList, Option.pure_def]

theorem AttributeValue.roundTrips : RoundTrips toJson ofJson? where
  plain value := by
    refine .record ?_
    rw [List.forall_mem_singleton]
    cases value with
    | strings list | jobs list => exact StringList.roundTrips.plain list
    | grades list => exact JobGrades.roundTrips.plain list
  reads value := by
    cases value with
    | strings list => exact congrArg (Option.map strings) (StringList.roundTrips.reads list)
    | jobs list => exact congrArg (Option.map jobs) (StringList.roundTrips.reads list)
    | grades list => exact congrArg (Option.map grades) (JobGrades.roundTrips.reads list)

/-! ## Records -/

theorem Identity.roundTrips : RoundTrips toJson ofJson? where
  plain identity := by
    refine .record ?_
    simp [roundTrips_uint64.plain, roundTrips_text.plain, roundTrips_int32.plain,
      roundTrips_bool.plain]
  reads identity := by
    have hfields : identity.toJson.fields? ["user_id", "job", "grade", "superuser"] =
        some [.given _, .given _, .given _, .given _] :=
      fields?_record_zip _ [_, _, _, _] rfl (by decide)
    rw [ofJson?, bind_of_eq_some hfields]
    simp only [roundTrips_uint64.bind_required, roundTrips_text.bind_required,
      roundTrips_int32.bind_required, roundTrips_bool.bind_required, Option.pure_def]

theorem Permission.roundTrips : RoundTrips toJson ofJson? where
  plain permission := by
    refine .record ?_
    simp [Id.roundTrips.plain, roundTrips_text.plain, roundTrips_int32.plain]
  reads permission := by
    have hfields : permission.toJson.fields? ["id", "category", "name", "guard_name", "order"] =
        some [.given _, .given _, .given _, .given _, .given _] :=
      fields?_record_zip _ [_, _, _, _, _] rfl (by decide)
    rw [ofJson?, bind_of_eq_some hfields]
    simp only [Id.roundTrips.bind_required, roundTrips_text.bind_required,
      roundTrips_int32.bind_required, Option.pure_def]

theorem Attribute.roundTrips : RoundTrips toJson ofJson? where
  plain attr := by
    refine .record ?_
    simp [Id.roundTrips.plain, roundTrips_text.plain, AttributeKind.roundTrips.plain,
      AttributeValue.roundTrips.plain]
  reads attr := by
    have hfields : attr.toJson.fields?
        ["id", "permission_id", "key", "attribute_type", "valid_values"] =
          some [.given _, .given _, .given _, .given _, .given _] :=
      fields?_record_zip _ [_, _, _, _, _] rfl (by decide)
    rw [ofJson?, bind_of_eq_some hfields]
    simp only [Id.roundTrips.bind_required, roundTrips_text.bind_required,
      AttributeKind.roundTrips.bind_required, AttributeValue.roundTrips.bind_required,
      Option.pure_def]

theorem Role.roundTrips : RoundTrips toJson ofJson? where
  plain role := by
    refine .record ?_
    simp [Id.roundTrips.plain, roundTrips_text.plain, roundTrips_int32.plain]
  reads role := by
    have hfields : role.toJson.fields? ["id", "job", "grade"] =
        some [.given _, .given _, .given _] :=
      fields?_record_zip _ [_, _, _] rfl (by decide)
    rw [ofJson?, bind_of_eq_some hfields]
    simp only [Id.roundTrips.bind_required, roundTrips_text.bind_required,
      roundTrips_int32.bind_required, Option.pure_def]

theorem Grant.roundTrips : RoundTrips toJson ofJson? where
  plain grant := by
    refine .record ?_
    simp [Id.roundTrips.plain, roundTrips_bool.plain]
  reads grant := by
    have hfields : grant.toJson.fields? ["role_id", "permission_id", "value"] =
        some [.given _, .given _, .given _] :=
      fields?_record_zip _ [_, _, _] rfl (by decide)
    rw [ofJson?, bind_of_eq_some hfields]
    simp only [Id.roundTrips.bind_required, roundTrips_bool.bind_required, Option.pure_def]

theorem RoleValue.roundTrips : RoundTrips toJson ofJson? where
  plain row := by
    refine .record ?_
    simp [Id.roundTrips.plain, AttributeValue.roundTrips.plain_ofOption]
  reads row := by
    have hfields : row.toJson.fields? ["role_id", "attribute_id", "value"] =
        some [.given _, .given _, .given _] :=
      fields?_record_zip _ [_, _, _] rfl (by decide)
    rw [ofJson?, bind_of_eq_some hfields]
    simp only [Id.roundTrips.bind_required, AttributeValue.roundTrips.bind_optional rfl,
      Option.pure_def]

theorem Ceiling.roundTrips : RoundTrips toJson ofJson? where
  plain ceiling := by
    refine .record ?_
    simp [Id.roundTrips.plain, roundTrips_text.plain, AttributeValue.roundTrips.plain_ofOption]
  reads ceiling := by
    have hfields : ceiling.toJson.fields? ["job", "attribute_id", "max_values"] =
        some [.given _, .given _, .given _] :=
      fields?_record_zip _ [_, _, _] rfl (by decide)
    rw [ofJson?, bind_of_eq_some hfields]
    simp only [Id.roundTrips.bind_required, roundTrips_text.bind_required,
      AttributeValue.roundTrips.bind_optional rfl, Option.pure_def]

/-! ## Texts -/

/-- **Every value is read back from the text it is written as.**  The text is the one without
blanks, and the identifiers are those of any entity. -/
theorem parse_written :
    (∀ identity : Identity, parse? Identity.ofJson? identity.toJson.write = some identity) ∧
    (∀ kind : AttributeKind, parse? AttributeKind.ofJson? kind.toJson.write = some kind) ∧
    (∀ value : AttributeValue, parse? AttributeValue.ofJson? value.toJson.write = some value) ∧
    (∀ list : StringList, parse? StringList.ofJson? list.toJson.write = some list) ∧
    (∀ list : JobGrades, parse? JobGrades.ofJson? list.toJson.write = some list) ∧
    (∀ (entity : Entity) (id : Id entity), parse? Id.ofJson? id.toJson.write = some id) ∧
    (∀ permission : Permission,
      parse? Permission.ofJson? permission.toJson.write = some permission) ∧
    (∀ role : Role, parse? Role.ofJson? role.toJson.write = some role) ∧
    (∀ grant : Grant, parse? Grant.ofJson? grant.toJson.write = some grant) ∧
    (∀ attr : Attribute, parse? Attribute.ofJson? attr.toJson.write = some attr) ∧
    (∀ ceiling : Ceiling, parse? Ceiling.ofJson? ceiling.toJson.write = some ceiling) ∧
    (∀ row : RoleValue, parse? RoleValue.ofJson? row.toJson.write = some row) ∧
    (∀ subject : Subject, parse? Subject.ofJson? subject.toJson.write = some subject) :=
  ⟨Identity.roundTrips.parse?_write, AttributeKind.roundTrips.parse?_write,
    AttributeValue.roundTrips.parse?_write, StringList.roundTrips.parse?_write,
    JobGrades.roundTrips.parse?_write, fun _ => Id.roundTrips.parse?_write,
    Permission.roundTrips.parse?_write, Role.roundTrips.parse?_write,
    Grant.roundTrips.parse?_write, Attribute.roundTrips.parse?_write,
    Ceiling.roundTrips.parse?_write, RoleValue.roundTrips.parse?_write,
    Subject.roundTrips.parse?_write⟩

end GradedAccess
