import GradedAccess.Permission
import GradedAccess.Role

/-!
# Requests to a store

What the engine asks of a store, and nothing else a store may offer.  A `Request` carries the type
of its answer, so one function can answer all of them.

`Store` is what the engine assumes of a store, which is next to nothing.  A store is asked with a
limit on the time it may take; it answers, reports a fault or gives no answer within the limit, and
it may change its state in every case.  Whoever reasons about the engine for *every* store
quantifies over this structure.
-/

namespace GradedAccess

/-- A permission to be created. -/
structure NewPermission where
  category : String
  name : String
  order : Int32
  deriving DecidableEq

/-- An attribute to be created. -/
structure NewAttribute where
  permission : PermissionId
  key : String
  kind : AttributeKind
  valid : Option AttributeValue
  deriving DecidableEq

/-- Something the engine asks of a store, with the type of the answer. -/
inductive Request : Type → Type where
  /-- All permissions. -/
  | permissions : Request (List Permission)
  /-- All attributes. -/
  | attributes : Request (List Attribute)
  /-- All roles, or those of a job. -/
  | roles (job : Option String) : Request (List Role)
  /-- The role of a number. -/
  | role (id : RoleId) : Request (Option Role)
  /-- All grants, or those of a role. -/
  | grants (role : Option RoleId) : Request (List Grant)
  /-- All role values, or those of a role. -/
  | values (role : Option RoleId) : Request (List RoleValue)
  /-- All ceilings, or those of a job. -/
  | ceilings (job : Option String) : Request (List Ceiling)
  /-- Create a permission. -/
  | createPermission (new : NewPermission) : Request Permission
  /-- Create an attribute. -/
  | createAttribute (new : NewAttribute) : Request Attribute
  /-- Change the kind and the valid values of an attribute. -/
  | redefine (id : AttributeId) (kind : AttributeKind) (valid : Option AttributeValue) :
      Request Unit

namespace Request

variable {α : Type}

/-- The name of a kind of request. -/
def name : Request α → String
  | permissions => "list_permissions"
  | attributes => "list_attributes"
  | roles _ => "list_roles"
  | role _ => "find_role"
  | grants _ => "list_role_grants"
  | values _ => "list_role_attribute_values"
  | ceilings _ => "list_job_attribute_ceilings"
  | createPermission _ => "create_permission"
  | createAttribute _ => "create_attribute"
  | redefine .. => "update_attribute_definition"

/-- What a request is about, for requests that are about something in particular. -/
def topic : Request α → Option String
  | permissions | attributes => none
  | roles job => job
  | role id => some (toString id)
  | grants owner => owner.map toString
  | values owner => owner.map toString
  | ceilings job => job
  | createPermission new => some (new.category ++ "/" ++ new.name)
  | createAttribute new => some (toString new.permission ++ "/" ++ new.key)
  | redefine id _ _ => some (toString id)

/-- A request as it is logged. -/
def describe (request : Request α) : String :=
  match request.topic with
  | none => request.name
  | some topic => request.name ++ "(" ++ topic ++ ")"

end Request

/-- A store with states of type `σ`. -/
structure Store (σ : Type) where
  /-- The answer to a request, absent when there is none within the limit, and the state after. -/
  ask : {α : Type} → Request α → (limit : Duration) → σ → Option (Except Fault α) × σ

/-- The store that always answers at once. -/
def Store.immediate {σ : Type} (answer : {α : Type} → Request α → σ → Except Fault α × σ) :
    Store σ where
  ask request _ state :=
    let (reply, state) := answer request state
    (some reply, state)

/-- All rows of a store, one list for each kind. -/
structure Rows where
  permissions : List Permission := []
  attributes : List Attribute := []
  roles : List Role := []
  grants : List Grant := []
  values : List RoleValue := []
  ceilings : List Ceiling := []
  deriving DecidableEq

/-- Whether a row belongs to what was asked for: to one owner, or to any. -/
def belongsTo {α : Type} [DecidableEq α] (asked : Option α) (owner : α) : Bool :=
  asked.all (owner = ·)

end GradedAccess
