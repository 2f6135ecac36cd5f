import GradedAccess.Proofs.Reload.Screening
import GradedAccess.Proofs.Store.Integrity

/-!
# Caches that mirror a store

What caches hold right after everything has been loaded from a store in memory, said without the
loader.  Most tables are those of the store.  Guards, keys and slots are found through the rows
they belong to.  Values are kept to their limits, and a maximum that is not set in its row is the
value that holds nothing.

Mirroring leaves nothing open: two caches that mirror the same store are equal (`Mirrors.unique`),
so they answer every lookup alike and are of the same sizes.
-/

namespace GradedAccess

open Std (ExtTreeMap)

namespace MemoryStore

/-- The most a job may have of an attribute, if it has a ceiling. -/
def ceilingOf (store : MemoryStore) (job : String) (attr : AttributeId) : Option AttributeValue :=
  store.ceilings[(job, attr)]?.bind fun most =>
    store.attributes[attr]?.map fun row => AttributeValue.orEmpty row.kind most

/-- What a role has of an attribute, if it has a value: the value kept to the valid values of the
attribute and to the ceiling of the role's job. -/
def valueOf (store : MemoryStore) (role : RoleId) (attr : AttributeId) : Option AttributeValue :=
  store.values[(role, attr)]?.bind fun value => store.roles[role]?.bind fun owner =>
    store.attributes[attr]?.map fun row => row.kept (store.ceilingOf owner.job attr) value

/-- Whether all values and maxima are of the kind of their attribute. -/
structure WellKinded (store : MemoryStore) : Prop where
  value : ∀ ⦃role : RoleId⦄ ⦃attr : AttributeId⦄ ⦃value : AttributeValue⦄ ⦃row : Attribute⦄,
    store.values[(role, attr)]? = some (some value) → store.attributes[attr]? = some row →
      value.kind = row.kind
  most : ∀ ⦃job : String⦄ ⦃attr : AttributeId⦄ ⦃most : AttributeValue⦄ ⦃row : Attribute⦄,
    store.ceilings[(job, attr)]? = some (some most) → store.attributes[attr]? = some row →
      most.kind = row.kind

/-- A ceiling is of the kind of its attribute. -/
theorem WellKinded.kind_ceilingOf {store : MemoryStore} (h : store.WellKinded) {job : String}
    {attr : AttributeId} {most : AttributeValue} {row : Attribute}
    (hmost : store.ceilingOf job attr = some most) (hrow : store.attributes[attr]? = some row) :
    most.kind = row.kind := by
  rw [ceilingOf, hrow, Option.bind_eq_some_iff] at hmost
  obtain ⟨given, hgiven, hmost⟩ := hmost
  rw [← Option.some.inj hmost]
  refine AttributeValue.kind_orEmpty fun value hvalue => ?_
  exact h.most (hvalue ▸ hgiven) hrow

section Rows

variable {store : MemoryStore} {role : RoleId} {job : String} {attr : AttributeId}
  {written : Option AttributeValue}

theorem WellKinded.setValue (h : store.WellKinded)
    (hfits : ∀ v ∈ written, ∀ row ∈ store.attributes[attr]?, v.kind = row.kind) :
    WellKinded { store with values := store.values.insert (role, attr) written } := by
  refine ⟨fun id attr' found row hfound hrow => ?_, h.most⟩
  rcases getElem?_insert_cases hfound with ⟨hkey, hvalue⟩ | ⟨-, hbefore⟩
  · obtain ⟨-, rfl⟩ := Prod.mk.inj hkey
    exact hfits found hvalue.symm row hrow
  · exact h.value hbefore hrow

theorem WellKinded.removeValue (h : store.WellKinded) (role : RoleId) (attr : AttributeId) :
    WellKinded { store with values := store.values.erase (role, attr) } :=
  ⟨fun _ _ _ _ hfound => h.value (getElem?_erase_cases hfound).2, h.most⟩

theorem WellKinded.setCeiling (h : store.WellKinded)
    (hfits : ∀ v ∈ written, ∀ row ∈ store.attributes[attr]?, v.kind = row.kind) :
    WellKinded { store with ceilings := store.ceilings.insert (job, attr) written } := by
  refine ⟨h.value, fun job' attr' found row hfound hrow => ?_⟩
  rcases getElem?_insert_cases hfound with ⟨hkey, hmost⟩ | ⟨-, hbefore⟩
  · obtain ⟨-, rfl⟩ := Prod.mk.inj hkey
    exact hfits found hmost.symm row hrow
  · exact h.most hbefore hrow

theorem WellKinded.removeCeiling (h : store.WellKinded) (job : String) (attr : AttributeId) :
    WellKinded { store with ceilings := store.ceilings.erase (job, attr) } :=
  ⟨h.value, fun _ _ _ _ hfound => h.most (getElem?_erase_cases hfound).2⟩

end Rows

end MemoryStore

namespace Caches

variable {caches caches' : Caches} {store : MemoryStore}

/-- Whether a catalog holds the permissions and attributes of a store, and finds them. -/
structure Mirrors.Catalog (catalog : GradedAccess.Catalog) (store : MemoryStore) : Prop where
  permissions : catalog.permissions = store.permissions
  guards : ∀ (guard : String) (id : PermissionId), catalog.guards[guard]? = some id ↔
    ∃ row, store.permissions[id]? = some row ∧ row.guard = guard
  attributes : catalog.attributes = store.attributes
  keys : ∀ (permission : PermissionId) (key : String) (id : AttributeId),
    catalog.keys[(permission, key)]? = some id ↔
      ∃ row, store.attributes[id]? = some row ∧ row.permission = permission ∧ row.key = key

/-- Whether caches hold what a full load of a store gives. -/
structure Mirrors (caches : Caches) (store : MemoryStore) : Prop where
  catalog : Mirrors.Catalog caches.catalog store
  roles : ∀ id : RoleId, caches.roles.role id = store.roles[id]?
  slots : ∀ (job : String) (grade : Grade) (id : RoleId), caches.roles.roleId job grade = some id ↔
    ∃ row, store.roles[id]? = some row ∧ row.job = job ∧ row.grade = grade
  grants : ∀ (role : RoleId) (permission : PermissionId),
    caches.grant role permission = store.grants[(role, permission)]?
  values : ∀ (role : RoleId) (attr : AttributeId), caches.value role attr = store.valueOf role attr
  ceilings : ∀ (job : String) (attr : AttributeId),
    caches.ceiling job attr = store.ceilingOf job attr

theorem Mirrors.Catalog.unique {catalog catalog' : GradedAccess.Catalog}
    (h : Mirrors.Catalog catalog store) (h' : Mirrors.Catalog catalog' store) :
    catalog = catalog' := by
  have hguards : catalog.guards = catalog'.guards := by
    ext guard id
    rw [h.guards, h'.guards]
  have hkeys : catalog.keys = catalog'.keys := by
    ext ⟨permission, key⟩ id
    rw [h.keys, h'.keys]
  obtain ⟨permissions, guards, attributes, keys⟩ := catalog
  obtain ⟨permissions', guards', attributes', keys'⟩ := catalog'
  obtain rfl : permissions = permissions' := h.permissions.trans h'.permissions.symm
  obtain rfl : attributes = attributes' := h.attributes.trans h'.attributes.symm
  obtain rfl : guards = guards' := hguards
  obtain rfl : keys = keys' := hkeys
  rfl

/-- Two caches that mirror one store are equal. -/
theorem Mirrors.unique (h : caches.Mirrors store) (h' : caches'.Mirrors store) :
    caches = caches' := by
  have hroles : caches.roles.roles = caches'.roles.roles := by
    ext id row
    exact iff_of_eq (congrArg (· = some row) ((h.roles id).trans (h'.roles id).symm))
  have hslots : caches.roles.slots = caches'.roles.slots := by
    ext ⟨job, grade⟩ id
    exact (h.slots job grade id).trans (h'.slots job grade id).symm
  have hgrants : caches.grants = caches'.grants := by
    ext ⟨role, permission⟩ value
    exact iff_of_eq (congrArg (· = some value)
      ((h.grants role permission).trans (h'.grants role permission).symm))
  have hvalues : caches.values = caches'.values := by
    ext ⟨role, attr⟩ value
    exact iff_of_eq (congrArg (· = some value)
      ((h.values role attr).trans (h'.values role attr).symm))
  have hceilings : caches.ceilings = caches'.ceilings := by
    ext ⟨job, attr⟩ value
    exact iff_of_eq (congrArg (· = some value)
      ((h.ceilings job attr).trans (h'.ceilings job attr).symm))
  obtain ⟨catalog, ⟨roles, slots⟩, grants, values, ceilings⟩ := caches
  obtain ⟨catalog', ⟨roles', slots'⟩, grants', values', ceilings'⟩ := caches'
  obtain rfl : catalog = catalog' := h.catalog.unique h'.catalog
  obtain rfl : roles = roles' := hroles
  obtain rfl : slots = slots' := hslots
  obtain rfl : grants = grants' := hgrants
  obtain rfl : values = values' := hvalues
  obtain rfl : ceilings = ceilings' := hceilings
  rfl

end Caches

end GradedAccess
