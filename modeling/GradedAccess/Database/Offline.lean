import GradedAccess.Database.Row
import GradedAccess.Store.Request

/-!
# A database that cannot be reached

What a request to the database comes to when the database does not answer.  The numbers in a
request are turned into numbers for columns before anything is sent, so a number that no column can
hold is refused whether the database can be reached or not.
-/

namespace GradedAccess

namespace Database

variable {α : Type}

/-- What a request does, in words. -/
def action : Request α → String
  | .permissions => "list permissions"
  | .attributes => "list attributes"
  | .roles _ => "list roles"
  | .role _ => "find role"
  | .grants _ => "list role grants"
  | .values _ => "list role attribute values"
  | .ceilings _ => "list job attribute ceilings"
  | .createPermission _ => "create permission"
  | .createAttribute _ => "create attribute"
  | .redefine .. => "update attribute definition"

/-- Succeeds when every number in a request fits its column. -/
def bindAll : Request α → Except Fault Unit
  | .role id => discard (bindId "role id" id.num)
  | .grants (some role) => discard (bindId "role id" role.num)
  | .values (some role) => discard (bindId "role id" role.num)
  | .createAttribute new => discard (bindId "permission id" new.permission.num)
  | .redefine id _ _ => discard (bindId "attribute id" id.num)
  | _ => .ok ()

/-- The fault of a request when the database does not answer. -/
def offline (request : Request α) : Fault :=
  match bindAll request with
  | .error fault => fault
  | .ok () => .databaseOffline (action request)

end Database

end GradedAccess
