import GradedAccess.Permission
import Std.Data.ExtTreeSet

/-!
# Registries of declared permissions

A service declares the permissions it asks about before it starts.  A `Registry` is the list of
what has been declared, in order, and the set of the guards that are taken.  It only ever holds
declarations that can live side by side: every guard is there once, every key once per permission,
and valid values are of the kind that is declared with them.  `declare` refuses anything else.

Faults are looked for in a fixed order: a missing guard name first, then the attributes one by one
(the kind of the valid values before a repeated key), and last a repeated guard.  That one is found
when the guard is recorded, so the guard goes into the set before the declaration goes into the
list.
-/

namespace GradedAccess

open Std (ExtTreeSet)

/-- An attribute as a service declares it. -/
structure AttributeDefinition where
  key : String
  kind : AttributeKind
  valid : Option AttributeValue := none
  deriving DecidableEq

/-- A permission as a service declares it. -/
structure Definition where
  category : String
  name : String
  order : Int32 := 0
  attributes : List AttributeDefinition := []
  deriving DecidableEq

namespace Definition

/-- The guard name of the declared permission. -/
def guard (definition : Definition) : String := guardName definition.category definition.name

/-- Goes through the attributes of a declaration, with the keys of the earlier ones. -/
def checkAttributes (guard : String) : (earlier : List String) → List AttributeDefinition →
    Except Fault Unit
  | _, [] => .ok ()
  | earlier, attr :: attrs =>
    match attr.valid.filter (·.kind ≠ attr.kind) with
    | some valid => .error (.declaredMismatch attr.key guard valid.kind attr.kind)
    | none =>
      if attr.key ∈ earlier then .error (.declaredKeyTwice attr.key guard)
      else checkAttributes guard (attr.key :: earlier) attrs

/-- Succeeds for a declaration that is sound in itself. -/
def check (definition : Definition) : Except Fault Unit :=
  if definition.guard.isEmpty then .error (.guardless definition.category definition.name)
  else checkAttributes definition.guard [] definition.attributes

end Definition

/-- The permissions that have been declared, in the order of their declaration, and beside them the
guards that are taken. -/
structure Registry where
  definitions : List Definition := []
  guards : ExtTreeSet String := .ofList (definitions.map Definition.guard)
  deriving DecidableEq

namespace Registry

/-- Whether a permission with the guard has been declared. -/
def contains (registry : Registry) (guard : String) : Bool := registry.guards.contains guard

/-- The number of declared permissions. -/
def size (registry : Registry) : Nat := registry.definitions.length

/-- Adds one declaration.  Whatever has been recorded before a fault stays recorded. -/
def declare (definition : Definition) : ExceptT Fault (StateM Registry) Unit := fun registry =>
  match definition.check with
  | .error fault => (.error fault, registry)
  | .ok () =>
    let recorded := { registry with guards := registry.guards.insert definition.guard }
    if registry.contains definition.guard then
      (.error (.declaredTwice definition.guard), recorded)
    else (.ok (), { recorded with definitions := recorded.definitions ++ [definition] })

/-- The registry with one more declaration. -/
def register (registry : Registry) (definition : Definition) : Except Fault Registry :=
  match declare definition registry with
  | (.ok (), registry) => .ok registry
  | (.error fault, _) => .error fault

/-- The registry after the declarations of a list have been added one by one up to the first one
that is refused, and the fault of that one. -/
def registerAll (registry : Registry) : List Definition → Registry × Except Fault Unit
  | [] => (registry, .ok ())
  | definition :: definitions =>
    match declare definition registry with
    | (.ok (), registry) => registry.registerAll definitions
    | (.error fault, registry) => (registry, .error fault)

end Registry

end GradedAccess
