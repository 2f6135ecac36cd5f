import GradedAccess.Json.Basic

/-!
# Forms: reading types out of JSON values

A record is written as an object or, without its keys, as an array of its fields in their declared
order.  `fields?` brings both to one list with a `Field` for every declared name:

* In an object, a member whose key is not declared is ignored whatever it holds.  A declared key
  that occurs twice is a fault, and so is a key without a text, since no one can say which field
  it names.
* In an array, more items than declared names are a fault.  Fewer leave the last fields out.

A field that was left out is `omitted` in the first case and `cut` in the second.  The two differ
for an optional field, which an object may omit but an array may not; a field with a default may
be left out either way, and any other field never.
-/

namespace GradedAccess

namespace Json

/-- What a record says about one of its declared fields. -/
inductive Field where
  | given (value : Json)
  | omitted
  | cut

namespace Field

/-- A field that has to be there. -/
def required {α : Type} (read? : Json → Option α) : Field → Option α
  | given value => read? value
  | omitted | cut => none

/-- A field that has a default. -/
def orElse {α : Type} (read? : Json → Option α) (default : α) : Field → Option α
  | given value => read? value
  | omitted | cut => some default

/-- A field that may be `null` or omitted. -/
def optional {α : Type} (read? : Json → Option α) : Field → Option (Option α)
  | given .null => some none
  | given value => (read? value).map some
  | omitted => some none
  | cut => none

end Field

/-- The values given under a key. -/
def valuesAt (key : String) (members : List (Text × Json)) : List Json :=
  members.filterMap fun member => if member.1 = some key then some member.2 else none

/-- The field of a name in an object, if the object does not give it twice. -/
def fieldAt? (members : List (Text × Json)) (name : String) : Option Field :=
  match valuesAt name members with
  | [] => some .omitted
  | [value] => some (.given value)
  | _ => none

/-- The fields of the declared names by position, when there are not too many items. -/
def fieldsInOrder? : List String → List Json → Option (List Field)
  | [], [] => some []
  | [], _ :: _ => none
  | _ :: names, item :: items => (fieldsInOrder? names items).map (.given item :: ·)
  | _ :: names, [] => (fieldsInOrder? names []).map (.cut :: ·)

/-- One field for every declared name of a record. -/
def fields? (names : List String) : Json → Option (List Field)
  | .object members =>
    if members.all (·.1.isSome) then names.mapM (fieldAt? members) else none
  | .array items => fieldsInOrder? names items
  | _ => none

/-- A truth value. -/
def bool? : Json → Option Bool
  | .bool value => some value
  | _ => none

/-- A string that has a text. -/
def text? : Json → Option String
  | .string text => text
  | _ => none

/-- An integer literal. -/
def integer? : Json → Option Int
  | .integer value => some value
  | _ => none

/-- An unsigned 64-bit integer. -/
def uint64? (value : Json) : Option UInt64 := do
  let n ← value.integer?
  if 0 ≤ n ∧ n < UInt64.size then some (UInt64.ofNat n.toNat) else none

/-- A signed 32-bit integer. -/
def int32? (value : Json) : Option Int32 := do
  let n ← value.integer?
  if Int32.minValue.toInt ≤ n ∧ n ≤ Int32.maxValue.toInt then some (Int32.ofInt n) else none

/-- An array whose items all have one form. -/
def list? {α : Type} (read? : Json → Option α) : Json → Option (List α)
  | .array items => items.mapM read?
  | _ => none

/-- An object read as a map: its keys all have texts and its values all have one form.  Entries
are in the order they were written, repetitions included. -/
def entries? {α : Type} (read? : Json → Option α) : Json → Option (List (String × α))
  | .object members => members.mapM fun member => do
    let key ← member.1
    let value ← read? member.2
    pure (key, value)
  | _ => none

/-- One of several cases, written as an object with the name of the case as its only key. -/
def case? : Json → Option (String × Json)
  | .object [(some name, value)] => some (name, value)
  | _ => none

/-- One of several names, written as a string or as the only key of an object that holds `null`
under it. -/
def name? : Json → Option String
  | .string text => text
  | .object [(some name, .null)] => some name
  | _ => none

end Json

end GradedAccess
