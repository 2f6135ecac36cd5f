import GradedAccess.Registry
import GradedAccess.Reload.Loader

/-!
# Enrolment

When a process starts it enrols its declared permissions in the store.  Permissions and attributes
that are missing are created, and an attribute whose kind or valid values differ from the
declaration is redefined.  Nothing is deleted: a permission that is stored and not declared is
only reported.

Permissions come first, all of them, and then the attributes, each in the order of declaration.
Whatever has been done before a fault stays done.
-/

namespace GradedAccess

open Std (ExtTreeMap)

/-- What an enrolment did. -/
structure EnrolmentReport where
  createdPermissions : Nat := 0
  createdAttributes : Nat := 0
  updatedAttributes : Nat := 0
  /-- The guards that are stored and not declared, in the order of the store. -/
  undeclared : List String := []
  deriving DecidableEq, Repr

namespace Enrolment

/-- Permissions by guard. -/
abbrev Guards := ExtTreeMap String PermissionId

variable {σ : Type} (source : Source σ)

/-- Creates the declared permissions whose guards are not there, and counts them. -/
def createPermissions (guards : Guards) (count : Nat) :
    List Definition → Fetch σ (Guards × Nat)
  | [] => pure (guards, count)
  | definition :: definitions => do
    if guards.contains definition.guard then
      createPermissions guards count definitions
    else
      let created ← source.fetch "permission registration" <| .createPermission
        { category := definition.category, name := definition.name, order := definition.order }
      createPermissions (guards.insert definition.guard created.id) (count + 1) definitions

/-- The declared attributes, each with the permission it belongs to. -/
def declaredAttributes (guards : Guards) (definitions : List Definition) :
    List (PermissionId × AttributeDefinition) :=
  definitions.flatMap fun definition =>
    match guards[definition.guard]? with
    | some permission => definition.attributes.map (permission, ·)
    | none => []

/-- Whether a stored attribute is as it is declared. -/
def agrees (declared : AttributeDefinition) (stored : Attribute) : Except Fault Bool := do
  let valid ← AttributeValue.orDefault declared.kind declared.valid
  pure (stored.kind = declared.kind && stored.valid = valid)

/-- Creates a declared attribute, or makes the stored one agree with it. -/
def enrolAttribute (stored : PairTable PermissionId String Attribute) (report : EnrolmentReport)
    (permission : PermissionId) (declared : AttributeDefinition) : Fetch σ EnrolmentReport := do
  match stored[(permission, declared.key)]? with
  | none =>
    let _ ← source.fetch "attribute registration" <| .createAttribute
      { permission, key := declared.key, kind := declared.kind, valid := declared.valid }
    pure { report with createdAttributes := report.createdAttributes + 1 }
  | some attr =>
    if ← agrees declared attr then pure report
    else
      source.fetch "attribute update" (.redefine attr.id declared.kind declared.valid)
      pure { report with updatedAttributes := report.updatedAttributes + 1 }

/-- Enrols the attributes of a list, one after another. -/
def enrolAttributes (stored : PairTable PermissionId String Attribute)
    (report : EnrolmentReport) :
    List (PermissionId × AttributeDefinition) → Fetch σ EnrolmentReport
  | [] => pure report
  | (permission, declared) :: rest => do
    let report ← enrolAttribute source stored report permission declared
    enrolAttributes stored report rest

end Enrolment

/-- Enrols what a registry declares. -/
def Source.enrol {σ : Type} (source : Source σ) (registry : Registry) :
    Fetch σ EnrolmentReport := do
  let permissions ← source.fetch "permissions" .permissions
  let guards := .ofList (permissions.map fun row => (row.guard, row.id))
  let (guards, createdPermissions) ←
    Enrolment.createPermissions source guards 0 registry.definitions
  let undeclared := (permissions.map (·.guard)).filter (!registry.contains ·)
  let attributes ← source.fetch "attributes" .attributes
  let stored := .ofList (attributes.map fun row => ((row.permission, row.key), row)) _
  Enrolment.enrolAttributes source stored { createdPermissions, undeclared }
    (Enrolment.declaredAttributes guards registry.definitions)

end GradedAccess
