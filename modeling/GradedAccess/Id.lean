/-!
# Identifiers

Permissions, roles and attributes are numbered by the store.  The three kinds of number never
mix: `Id` carries the kind of row it names in its type, so a role id cannot be looked up in the
catalog.  Numbers have 64 bits, and identifiers are ordered by their numbers.
-/

namespace GradedAccess

/-- The kinds of row that have identifiers. -/
inductive Entity where
  | permission
  | role
  | attribute
  deriving DecidableEq

/-- The number of a row of one kind. -/
structure Id (entity : Entity) where
  num : UInt64
  deriving DecidableEq, Inhabited, Repr

/-- The number of a permission. -/
abbrev PermissionId := Id .permission

/-- The number of a role. -/
abbrev RoleId := Id .role

/-- The number of an attribute. -/
abbrev AttributeId := Id .attribute

namespace Id

variable {entity : Entity}

instance : Ord (Id entity) where
  compare a b := compare a.num b.num

theorem compare_eq_compare_num (a b : Id entity) : compare a b = compare a.num b.num := rfl

instance : Std.LawfulEqOrd (Id entity) where
  eq_of_compare {a b} h := by
    cases a
    cases b
    exact congrArg Id.mk (Std.LawfulEqOrd.eq_of_compare h)
  compare_self {a} := Std.ReflOrd.compare_self (a := a.num)

instance : Std.TransOrd (Id entity) where
  eq_swap {a b} := Std.OrientedOrd.eq_swap (a := a.num) (b := b.num)
  isLE_trans {a b c} := Std.TransOrd.isLE_trans (a := a.num) (b := b.num) (c := c.num)

instance : ToString (Id entity) where
  toString id := toString id.num

end Id

end GradedAccess
