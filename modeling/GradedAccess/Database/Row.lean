import GradedAccess.Wire

/-!
# Database rows

The database has signed 64-bit columns for identifiers and JSON columns for attribute values.
A row is what a query returns; `toDomain` turns it into the row the engine works with, or says what
is wrong with it.

Identifiers cross in both directions.  `rowId` refuses a negative number, which no row should
have, and `bindId` refuses a number the column cannot hold; where both succeed each undoes the
other.  A value column is null when the value is missing; anything else in it has to be an
attribute value.  The JSON in a column is a tree of maps, in which the last of several equal keys
has replaced the others.

The order in which the columns of a row are looked at decides which of two faults is reported.
-/

namespace GradedAccess

namespace Database

/-- A number of a row as an unsigned number. -/
def rowId (column : String) (value : Int64) : Except Fault UInt64 :=
  if value < 0 then .error (.negativeId column value.toInt) else .ok value.toUInt64

/-- An unsigned number as a number for a column. -/
def bindId (column : String) (value : UInt64) : Except Fault Int64 :=
  if value ≤ Int64.maxValue.toUInt64 then .ok value.toInt64 else .error (.idTooLarge column value)

/-- The value in a column. -/
def decodeValue (context : String) (column : Option Json) : Except Fault (Option AttributeValue) :=
  match column with
  | none | some .null => .ok none
  | some json =>
    match AttributeValue.ofJson? json.collapse with
    | some value => .ok (some value)
    | none => .error (.undecodable context)

/-- A value for a column. -/
def encodeValue (value : Option AttributeValue) : Option Json :=
  value.map AttributeValue.toJson

/-- A row of the table of permissions. -/
structure PermissionRow where
  id : Int64
  category : String
  name : String
  order : Int32

/-- The permission of a row. -/
def PermissionRow.toDomain (row : PermissionRow) : Except Fault Permission := do
  let id ← rowId "permission id" row.id
  Permission.make? ⟨id⟩ row.category row.name row.order

/-- A row of the table of attributes. -/
structure AttributeRow where
  id : Int64
  permission : Int64
  key : String
  kind : String
  valid : Option Json

/-- The attribute of a row. -/
def AttributeRow.toDomain (row : AttributeRow) : Except Fault Attribute := do
  let kind ← AttributeKind.named row.kind
  let id ← rowId "attribute id" row.id
  let permission ← rowId "permission id" row.permission
  let valid ← decodeValue ("valid values of attribute '" ++ toString row.id ++ "'") row.valid
  Attribute.make? ⟨id⟩ ⟨permission⟩ row.key kind valid

/-- A row of the table of roles. -/
structure RoleRow where
  id : Int64
  job : String
  grade : Int32

/-- The role of a row. -/
def RoleRow.toDomain (row : RoleRow) : Except Fault Role := do
  let id ← rowId "role id" row.id
  pure ⟨⟨id⟩, row.job, row.grade⟩

/-- A row of the table of grants. -/
structure GrantRow where
  role : Int64
  permission : Int64
  value : Bool

/-- The grant of a row. -/
def GrantRow.toDomain (row : GrantRow) : Except Fault Grant := do
  let role ← rowId "role id" row.role
  let permission ← rowId "permission id" row.permission
  pure ⟨⟨role⟩, ⟨permission⟩, row.value⟩

/-- A row of the table of role values. -/
structure RoleValueRow where
  role : Int64
  attr : Int64
  value : Option Json

/-- The role value of a row. -/
def RoleValueRow.toDomain (row : RoleValueRow) : Except Fault RoleValue := do
  let role ← rowId "role id" row.role
  let attr ← rowId "attribute id" row.attr
  let value ← decodeValue
    ("value of attribute '" ++ toString row.attr ++ "' for role '" ++ toString row.role ++ "'")
    row.value
  pure ⟨⟨role⟩, ⟨attr⟩, value⟩

/-- A row of the table of ceilings. -/
structure CeilingRow where
  job : String
  attr : Int64
  most : Option Json

/-- The ceiling of a row. -/
def CeilingRow.toDomain (row : CeilingRow) : Except Fault Ceiling := do
  let attr ← rowId "attribute id" row.attr
  let most ← decodeValue
    ("ceiling of attribute '" ++ toString row.attr ++ "' for job '" ++ row.job ++ "'") row.most
  pure ⟨row.job, ⟨attr⟩, most⟩

end Database

end GradedAccess
