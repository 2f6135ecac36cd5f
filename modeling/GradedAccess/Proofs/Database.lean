import GradedAccess.Database.Row
import GradedAccess.Proofs.Attribute.Value
import GradedAccess.Proofs.Json.Collapse
import GradedAccess.Proofs.Wire
import Mathlib.Algebra.GroupWithZero.Nat

/-!
# Rows are read as they were written

What the database keeps of an attribute, of the value of a role or of a ceiling is read as it was
(`rows_read_back`).  Numbers cross as the numbers they are: `rowId` and `bindId` both say that a
signed and an unsigned number are equal, and fail where there is no equal number, so each undoes the
other.  A value is written as a tree in which every key is there once, from which it is read again,
and a missing value as nothing at all.
-/

namespace GradedAccess

namespace Database

variable {column : String} {id : UInt64} {value : Int64}

/-! ## Numbers -/

theorem toInt_toInt64 (h : id.toNat < 2 ^ 63) : id.toInt64.toInt = id.toNat := by
  rw [← Int64.toInt_toBitVec, UInt64.toBitVec_toInt64, BitVec.toInt_eq_toNat_of_lt,
    UInt64.toNat_toBitVec]
  rw [UInt64.toNat_toBitVec]
  omega

theorem toNat_toUInt64 (h : 0 ≤ value.toInt) : (value.toUInt64.toNat : Int) = value.toInt := by
  rw [← Int64.toInt_toBitVec] at h ⊢
  rw [← UInt64.toNat_toBitVec, Int64.toBitVec_toUInt64]
  exact (BitVec.toInt_eq_toNat_of_lt (BitVec.toInt_pos_iff.mp h)).symm

theorem le_maxValue_iff : id ≤ Int64.maxValue.toUInt64 ↔ id.toNat < 2 ^ 63 := by
  have hmost : Int64.maxValue.toUInt64.toNat = 2 ^ 63 - 1 := by decide
  rw [UInt64.le_iff_toNat_le, hmost]
  omega

/-- Binding a number finds the signed number it equals. -/
theorem bindId_eq_ok_iff : bindId column id = .ok value ↔ value.toInt = id.toNat := by
  rw [bindId]
  split
  · next h =>
    have hbound := toInt_toInt64 (le_maxValue_iff.mp h)
    rw [Except.ok.injEq, ← Int64.toInt_inj, hbound]
    exact eq_comm
  · next h =>
    rw [le_maxValue_iff] at h
    refine ⟨nofun, fun heq => ?_⟩
    have hvalue := value.toInt_lt
    omega

theorem lt_zero_iff : value < 0 ↔ value.toInt < 0 := Int64.lt_iff_toInt_lt

/-- Reading a number finds the unsigned number it equals. -/
theorem rowId_eq_ok_iff : rowId column value = .ok id ↔ value.toInt = id.toNat := by
  rw [rowId]
  split
  · next h =>
    rw [lt_zero_iff] at h
    refine ⟨nofun, fun heq => ?_⟩
    omega
  · next h =>
    rw [lt_zero_iff, Int.not_lt] at h
    rw [Except.ok.injEq, ← UInt64.toNat_inj, ← toNat_toUInt64 h, Int.natCast_inj]

/-- Binding fails for the numbers beyond the columns, and only for these. -/
theorem exists_bindId_error_iff :
    (∃ fault, bindId column id = .error fault) ↔ 2 ^ 63 - 1 < id.toNat := by
  rw [bindId]
  split
  · next h =>
    rw [le_maxValue_iff] at h
    exact ⟨nofun, fun hlarge => by omega⟩
  · next h =>
    rw [le_maxValue_iff] at h
    exact ⟨fun _ => by omega, fun _ => ⟨_, rfl⟩⟩

/-- Reading fails for the negative numbers, and only for these. -/
theorem exists_rowId_error_iff :
    (∃ fault, rowId column value = .error fault) ↔ value.toInt < 0 := by
  rw [rowId, ← lt_zero_iff]
  split
  · next h => exact ⟨fun _ => h, fun _ => ⟨_, rfl⟩⟩
  · next h => exact ⟨nofun, fun hneg => absurd hneg h⟩

/-- A number that fits is bound to one that is read as the number again. -/
theorem exists_bindId (h : id.toNat ≤ 2 ^ 63 - 1) (column column' : String) :
    ∃ value, bindId column id = .ok value ∧ rowId column' value = .ok id := by
  have hbound : id.toInt64.toInt = id.toNat := toInt_toInt64 (by omega)
  exact ⟨id.toInt64, bindId_eq_ok_iff.mpr hbound, rowId_eq_ok_iff.mpr hbound⟩

/-! ## Values -/

/-- What is written for a value is never the `null` of a missing one. -/
theorem decodeValue_toJson (context : String) (value : AttributeValue) :
    decodeValue context (some value.toJson) =
      match AttributeValue.ofJson? value.toJson.collapse with
      | some value => .ok (some value)
      | none => .error (.undecodable context) := rfl

/-- A value that is written is read back, and so is a missing one. -/
theorem decodeValue_encodeValue (context : String) (value : Option AttributeValue) :
    decodeValue context (encodeValue value) = .ok value := by
  cases value with
  | none => rfl
  | some value =>
    rw [encodeValue, Option.map_some, decodeValue_toJson, value.keyedOnce_toJson.collapse_eq,
      AttributeValue.roundTrips.reads]

theorem named_name (kind : AttributeKind) : AttributeKind.named kind.name = .ok kind := by
  rw [AttributeKind.named, AttributeKind.ofName?_name]

/-! ## Rows -/

/-- The row that is written for an attribute. -/
def AttributeRow.ofAttribute (attr : Attribute) : Except Fault AttributeRow := do
  let id ← bindId "attribute id" attr.id.num
  let permission ← bindId "permission id" attr.permission.num
  pure ⟨id, permission, attr.key, attr.kind.name, encodeValue (some attr.valid)⟩

/-- The row that is written for a role value. -/
def RoleValueRow.ofRoleValue (given : RoleValue) : Except Fault RoleValueRow := do
  let role ← bindId "role id" given.role.num
  let attr ← bindId "attribute id" given.attr.num
  pure ⟨role, attr, encodeValue given.value⟩

/-- The row that is written for a ceiling. -/
def CeilingRow.ofCeiling (ceiling : Ceiling) : Except Fault CeilingRow := do
  let attr ← bindId "attribute id" ceiling.attr.num
  pure ⟨ceiling.job, attr, encodeValue ceiling.most⟩

/-- An attribute that has been made is made again of its own parts. -/
theorem make?_again {id : AttributeId} {permission : PermissionId} {key : String}
    {kind : AttributeKind} {valid : Option AttributeValue} {attr : Attribute}
    (h : Attribute.make? id permission key kind valid = .ok attr) :
    Attribute.make? attr.id attr.permission attr.key attr.kind (some attr.valid) = .ok attr := by
  rw [Attribute.make?] at h
  split at h
  · cases h
  · next hkey =>
    obtain ⟨value, hvalue, hattr⟩ := bind_eq_ok_iff.mp h
    obtain ⟨hkinds, rfl⟩ := AttributeValue.orDefault_eq_ok_iff.mp hvalue
    obtain rfl := Except.ok.inj hattr
    have hagain : AttributeValue.orDefault kind (some (AttributeValue.orEmpty kind valid)) =
        .ok (AttributeValue.orEmpty kind valid) := by
      refine AttributeValue.orDefault_eq_ok_iff.mpr ⟨?_, rfl⟩
      rintro _ ⟨⟩
      exact AttributeValue.kind_orEmpty hkinds
    rw [Attribute.make?, if_neg hkey, hagain]
    rfl

theorem exists_attributeRow {attr : Attribute} (hid : attr.id.num.toNat ≤ 2 ^ 63 - 1)
    (hpermission : attr.permission.num.toNat ≤ 2 ^ 63 - 1)
    (hmake : Attribute.make? attr.id attr.permission attr.key attr.kind (some attr.valid) =
      .ok attr) :
    ∃ row, AttributeRow.ofAttribute attr = .ok row ∧ row.toDomain = .ok attr := by
  obtain ⟨id, hbindId, hreadId⟩ := exists_bindId hid "attribute id" "attribute id"
  obtain ⟨permission, hbind, hread⟩ := exists_bindId hpermission "permission id" "permission id"
  refine ⟨⟨id, permission, attr.key, attr.kind.name, encodeValue (some attr.valid)⟩, ?_, ?_⟩
  · rw [AttributeRow.ofAttribute, hbindId, hbind]
    rfl
  · simp only [AttributeRow.toDomain, named_name, hreadId, hread, decodeValue_encodeValue]
    exact hmake

theorem exists_roleValueRow {given : RoleValue} (hrole : given.role.num.toNat ≤ 2 ^ 63 - 1)
    (hattr : given.attr.num.toNat ≤ 2 ^ 63 - 1) :
    ∃ row, RoleValueRow.ofRoleValue given = .ok row ∧ row.toDomain = .ok given := by
  obtain ⟨role, hbindRole, hreadRole⟩ := exists_bindId hrole "role id" "role id"
  obtain ⟨attr, hbind, hread⟩ := exists_bindId hattr "attribute id" "attribute id"
  refine ⟨⟨role, attr, encodeValue given.value⟩, ?_, ?_⟩
  · rw [RoleValueRow.ofRoleValue, hbindRole, hbind]
    rfl
  · simp only [RoleValueRow.toDomain, hreadRole, hread, decodeValue_encodeValue]
    rfl

theorem exists_ceilingRow {ceiling : Ceiling} (hattr : ceiling.attr.num.toNat ≤ 2 ^ 63 - 1) :
    ∃ row, CeilingRow.ofCeiling ceiling = .ok row ∧ row.toDomain = .ok ceiling := by
  obtain ⟨attr, hbind, hread⟩ := exists_bindId hattr "attribute id" "attribute id"
  refine ⟨⟨ceiling.job, attr, encodeValue ceiling.most⟩, ?_, ?_⟩
  · rw [CeilingRow.ofCeiling, hbind]
    rfl
  · simp only [CeilingRow.toDomain, hread, decodeValue_encodeValue]
    rfl

/-- **Rows are read back as they were written.**  The row of every attribute that can be made, of
every role value and of every ceiling can be written and is read as what it was written for, as long
as its numbers fit into the columns.  Binding fails for the numbers that do not fit and reading for
the negative ones, and where they succeed each undoes the other. -/
theorem rows_read_back :
    (∀ (id : AttributeId) (permission : PermissionId) (key : String) (kind : AttributeKind)
        (valid : Option AttributeValue) (attr : Attribute),
      Attribute.make? id permission key kind valid = .ok attr →
      attr.id.num.toNat ≤ 2 ^ 63 - 1 → attr.permission.num.toNat ≤ 2 ^ 63 - 1 →
      ∃ row, AttributeRow.ofAttribute attr = .ok row ∧ row.toDomain = .ok attr) ∧
    (∀ given : RoleValue,
      given.role.num.toNat ≤ 2 ^ 63 - 1 → given.attr.num.toNat ≤ 2 ^ 63 - 1 →
      ∃ row, RoleValueRow.ofRoleValue given = .ok row ∧ row.toDomain = .ok given) ∧
    (∀ ceiling : Ceiling, ceiling.attr.num.toNat ≤ 2 ^ 63 - 1 →
      ∃ row, CeilingRow.ofCeiling ceiling = .ok row ∧ row.toDomain = .ok ceiling) ∧
    (∀ (column : String) (id : UInt64),
      (∃ fault, bindId column id = .error fault) ↔ 2 ^ 63 - 1 < id.toNat) ∧
    (∀ (column : String) (value : Int64),
      (∃ fault, rowId column value = .error fault) ↔ value.toInt < 0) ∧
    ∀ (column column' : String) (id : UInt64) (value : Int64),
      bindId column id = .ok value ↔ rowId column' value = .ok id := by
  refine ⟨?_, fun _ => exists_roleValueRow, fun _ => exists_ceilingRow,
    fun _ _ => exists_bindId_error_iff, fun _ _ => exists_rowId_error_iff, ?_⟩
  · intro id permission key kind valid attr hmake hid hpermission
    exact exists_attributeRow hid hpermission (make?_again hmake)
  · intro column column' id value
    rw [bindId_eq_ok_iff, rowId_eq_ok_iff]

/-- An attribute with the highest number a column holds, valid grades of two jobs and a map that
does not count, a role value that is missing, and a number that is one too high. -/
theorem highest_number_read_back :
    let grades : JobGrades :=
      { fineGrained := true, jobs := .ofList [("doj", (3 : Grade))]
        grades := .ofList [("police", [(1 : Grade), -2, 1]), ("\"", [])] }
    let attr : Attribute :=
      ⟨⟨0x7fffffffffffffff⟩, ⟨1⟩, "Players", .jobGradeList, .grades grades⟩
    let given : RoleValue := ⟨⟨2⟩, ⟨0x7fffffffffffffff⟩, none⟩
    Attribute.make? ⟨0x7fffffffffffffff⟩ ⟨1⟩ "Players" .jobGradeList (some (.grades grades)) =
        .ok attr ∧
      attr.id.num.toNat ≤ 2 ^ 63 - 1 ∧ attr.permission.num.toNat ≤ 2 ^ 63 - 1 ∧
      (∃ row, AttributeRow.ofAttribute attr = .ok row ∧ row.toDomain = .ok attr) ∧
      (∃ row, RoleValueRow.ofRoleValue given = .ok row ∧ row.toDomain = .ok given) ∧
      ∃ fault, bindId "attribute id" 0x8000000000000000 = .error fault := by
  intro grades attr given
  obtain ⟨hattributes, hvalues, -, hbind, -⟩ := rows_read_back
  have hmake : Attribute.make? ⟨0x7fffffffffffffff⟩ ⟨1⟩ "Players" .jobGradeList
      (some (.grades grades)) = .ok attr := by
    decide +kernel
  have hid : attr.id.num.toNat ≤ 2 ^ 63 - 1 := by decide
  have hpermission : attr.permission.num.toNat ≤ 2 ^ 63 - 1 := by decide
  refine ⟨hmake, hid, hpermission, hattributes _ _ _ _ _ attr hmake hid hpermission,
    hvalues given (by decide) (by decide), (hbind _ _).mpr (by decide)⟩

end Database

end GradedAccess
