import GradedAccess.Proofs.Resolution.Chain
import GradedAccess.Proofs.Session

/-!
# Access checks after a full load

What access checks answer once everything has been loaded, said in terms of the store alone.
`Answers` is the specification.  A permission is allowed if the highest role that has a grant for
it allows it.  An attribute has the value of the highest role that has one, checked against the
valid values and the ceiling of the job.  The flattened guard names are those of all checked values
of all roles that count.

`answers_of_loadAll` is the main result: whatever a session has done to store and caches, a full
load that succeeds makes the caches answer as specified.  In particular nothing that was cached
from an earlier state of the store can still be seen.
-/

namespace GradedAccess

open Std (ExtTreeSet)

namespace MemoryStore

variable {store : MemoryStore}

/-- Whether a value is what checking leaves of the value of a row: a missing value is checked as
the value that holds nothing, against the valid values of the attribute and the ceiling of the
job, if it has one. -/
def Leaves (store : MemoryStore) (job : String) (attr : Attribute)
    (given : Option AttributeValue) (value : AttributeValue) : Prop :=
  ∃ checked, (AttributeValue.orEmpty attr.kind given).check attr.kind (some attr.valid)
    (store.ceilingOf job attr.id) = .ok checked ∧ checked.value = value

/-- Checking leaves the kept value, provided everything is of the kind of the attribute. -/
theorem leaves_kept (hsound : store.Sound) (hkinds : store.WellKinded) {role : RoleId}
    {attr : AttributeId} {given : Option AttributeValue} {row : Attribute}
    (hgiven : store.values[(role, attr)]? = some given)
    (hrow : store.attributes[attr]? = some row) (job : String) :
    store.Leaves job row given (row.kept (store.ceilingOf job attr) given) := by
  obtain rfl := hsound.attribute_id hrow
  have hkind : ∀ v, given = some v → v.kind = row.kind := fun v hv =>
    hkinds.value (hv ▸ hgiven) hrow
  refine ⟨_, AttributeValue.check_eq_ok_iff.mpr
    ⟨AttributeValue.kind_orEmpty hkind, ?_, fun v hv => hkinds.kind_ceilingOf hv hrow, rfl⟩, rfl⟩
  rintro _ ⟨⟩
  exact hsound.valid_kind hrow

/-- Checking leaves one value only. -/
theorem Leaves.unique {job : String} {attr : Attribute} {given : Option AttributeValue}
    {value value' : AttributeValue} (h : store.Leaves job attr given value)
    (h' : store.Leaves job attr given value') : value = value' := by
  obtain ⟨checked, hchecked, rfl⟩ := h
  obtain ⟨checked', hchecked', rfl⟩ := h'
  rw [hchecked, Except.ok.injEq] at hchecked'
  rw [hchecked']

end MemoryStore

namespace Caches

variable {caches : Caches} {store : MemoryStore}

/-- Whether caches answer as the rows of a store specify. -/
structure Answers (caches : Caches) (store : MemoryStore) : Prop where
  /-- A permission is allowed as the highest role says that has a grant for it. -/
  can : ∀ (identity : Identity) (category name : String), identity.superuser = false →
    ∀ (id : PermissionId) (row : Permission), store.permissions[id]? = some row →
      row.guard = guardName category name →
        ∃ answer, store.Heard identity.job identity.grade
            (fun role => store.grants[(role, id)]?) answer ∧
          caches.can identity category name = answer.getD false
  /-- Nobody but a superuser is allowed a permission that is not there. -/
  can_unknown : ∀ (identity : Identity) (category name : String), identity.superuser = false →
    (∀ (id : PermissionId) (row : Permission), store.permissions[id]? = some row →
      row.guard ≠ guardName category name) → caches.can identity category name = false
  /-- An attribute has the checked value of the highest role that has a value of it. -/
  attr : ∀ (identity : Identity) (category name key : String), identity.superuser = false →
    ∀ (id : AttributeId) (row : Attribute) (permission : Permission),
      store.attributes[id]? = some row → row.key = key →
      store.permissions[row.permission]? = some permission →
      permission.guard = guardName category name →
        ∃ answer, store.Heard identity.job identity.grade
            (fun role => store.values[(role, id)]?) answer ∧
          match answer with
          | none => caches.attrOf identity category name key = .ok none
          | some given => ∃ value, store.Leaves identity.job row given value ∧
              caches.attrOf identity category name key = .ok (some value)
  /-- An attribute that is not there has no value. -/
  attr_unknown : ∀ (identity : Identity) (category name key : String),
    (∀ (id : AttributeId) (row : Attribute) (permission : Permission),
      store.attributes[id]? = some row → row.key = key →
      store.permissions[row.permission]? = some permission →
      permission.guard ≠ guardName category name) →
        caches.attrOf identity category name key = .ok none
  /-- The flattened guard names are those of the entries of all checked values of all roles that
  count. -/
  flattened : ∀ (job : String) (grade : Grade) (entry : String),
    entry ∈ caches.flattened job grade ↔
      ∃ (role : Role) (id : AttributeId) (given : Option AttributeValue) (row : Attribute)
          (permission : Permission) (value : AttributeValue),
        store.Counts job grade role ∧ store.values[(role.id, id)]? = some given ∧
        store.attributes[id]? = some row ∧
        store.permissions[row.permission]? = some permission ∧
        store.Leaves job row given value ∧
        ∃ flat ∈ value.flat,
          entry = attributeGuardName permission.category permission.name row.key flat

/-! ## Looking things up -/

/-- A flattened guard name is one of an entry of a value of a role in the chain. -/
theorem mem_flattened_iff {job : String} {grade : Grade} {entry : String} :
    entry ∈ caches.flattened job grade ↔
      ∃ role ∈ caches.roles.chain job grade, ∃ attr value,
        caches.value role attr = some value ∧ entry ∈ caches.entryGuards attr value := by
  rw [flattened, ExtTreeSet.mem_ofList, List.contains_iff_mem]
  simp only [List.mem_flatMap, Prod.exists, PairTable.mem_row_iff, value]

theorem Mirrors.permissionId_eq_some_iff (h : caches.Mirrors store) {category name : String}
    {id : PermissionId} :
    caches.permissionId category name = some id ↔
      ∃ row, store.permissions[id]? = some row ∧ row.guard = guardName category name :=
  h.catalog.guards _ id

theorem Mirrors.attributeByKey_eq_some_iff (h : caches.Mirrors store) (hsound : store.Sound)
    {permission : PermissionId} {key : String} {row : Attribute} :
    caches.catalog.attributeByKey permission key = some row ↔
      store.attributes[row.id]? = some row ∧ row.permission = permission ∧ row.key = key := by
  have hattr : ∀ id, caches.catalog.attr id = store.attributes[id]? := fun id => by
    rw [Catalog.attr, h.catalog.attributes]
  rw [Catalog.attributeByKey, Option.bind_eq_some_iff]
  simp only [h.catalog.keys, hattr]
  constructor
  · rintro ⟨id, ⟨row', hrow', hpermission, hkey⟩, hrow⟩
    rw [hrow, Option.some.injEq] at hrow'
    obtain rfl := hsound.attribute_id hrow
    exact ⟨hrow, hrow' ▸ hpermission, hrow' ▸ hkey⟩
  · rintro ⟨hrow, hpermission, hkey⟩
    exact ⟨row.id, ⟨row, hrow, hpermission, hkey⟩, hrow⟩

/-- What an attribute has for a role that counts is its row's value, kept to its limits. -/
theorem valueOf_of_counts {role : Role} {job : String} {grade : Grade} {id : AttributeId}
    {row : Attribute} (hrole : store.Counts job grade role)
    (hrow : store.attributes[id]? = some row) :
    store.valueOf role.id id =
      (store.values[(role.id, id)]?).map (row.kept (store.ceilingOf job id)) := by
  rw [MemoryStore.valueOf, hrole.1, hrow]
  cases store.values[(role.id, id)]? with
  | none => rfl
  | some given =>
    rw [Option.bind_some, Option.bind_some, Option.map_some, Option.map_some, hrole.2.1]

theorem kind_kept (attr : Attribute) (most : Option AttributeValue)
    {given : Option AttributeValue} (h : ∀ v, given = some v → v.kind = attr.kind) :
    (attr.kept most given).kind = attr.kind := by
  have hlimited : ∀ value : AttributeValue,
      (value.limited (some attr.valid) most).value.kind = value.kind := by
    intro value
    cases value <;> rfl
  rw [Attribute.kept, hlimited, AttributeValue.kind_orEmpty h]

/-! ## The answers -/

section Answers

variable (h : caches.Mirrors store) (hsound : store.Sound) (hkinds : store.WellKinded)
include h hsound

theorem Mirrors.can_known {identity : Identity} {category name : String}
    (hsuper : identity.superuser = false) {id : PermissionId} {row : Permission}
    (hrow : store.permissions[id]? = some row) (hguard : row.guard = guardName category name) :
    ∃ answer, store.Heard identity.job identity.grade
        (fun role => store.grants[(role, id)]?) answer ∧
      caches.can identity category name = answer.getD false := by
  have hid := h.permissionId_eq_some_iff.mpr ⟨row, hrow, hguard⟩
  have hgrants : (caches.grant · id) = fun role => store.grants[(role, id)]? :=
    funext fun role => h.grants role id
  refine ⟨_, h.heard hsound _ _ _, ?_⟩
  rw [Caches.can, hsuper, Bool.false_or, hid, Option.any_some, resolve, hgrants]

theorem Mirrors.attr_known {identity : Identity} {category name key : String}
    (hkinds : store.WellKinded) (hsuper : identity.superuser = false) {id : AttributeId}
    {row : Attribute} {permission : Permission} (hrow : store.attributes[id]? = some row)
    (hkey : row.key = key) (hpermission : store.permissions[row.permission]? = some permission)
    (hguard : permission.guard = guardName category name) :
    ∃ answer, store.Heard identity.job identity.grade
        (fun role => store.values[(role, id)]?) answer ∧
      match answer with
      | none => caches.attrOf identity category name key = .ok none
      | some given => ∃ value, store.Leaves identity.job row given value ∧
          caches.attrOf identity category name key = .ok (some value) := by
  obtain rfl := hsound.attribute_id hrow
  have hid := h.permissionId_eq_some_iff.mpr ⟨permission, hpermission, hguard⟩
  have hattr := (h.attributeByKey_eq_some_iff hsound).mpr ⟨hrow, rfl, hkey⟩
  have hheard := h.heard hsound identity.job identity.grade (caches.value · row.id)
  obtain ⟨answer, hanswer, hresolved⟩ : ∃ answer, store.Heard identity.job identity.grade
      (fun role => store.values[(role, row.id)]?) answer ∧
        caches.resolveValue identity.job identity.grade row.id =
          answer.map (row.kept (store.ceilingOf identity.job row.id)) :=
    hheard.of_map fun role hrole => (h.values role.id row.id).trans (valueOf_of_counts hrole hrow)
  refine ⟨answer, hanswer, ?_⟩
  cases answer with
  | none => simp [attrOf, hid, hattr, hsuper, hresolved]
  | some given =>
    obtain ⟨role, hrole, hgiven, -⟩ := hanswer
    have hkind : (row.kept (store.ceilingOf identity.job row.id) given).kind = row.kind :=
      kind_kept row _ fun v hv => hkinds.value (hv ▸ hgiven) hrow
    have hdefault : AttributeValue.orDefault row.kind
        (some (row.kept (store.ceilingOf identity.job row.id) given)) =
          .ok (row.kept (store.ceilingOf identity.job row.id) given) := by
      rw [AttributeValue.orDefault_eq_ok_iff]
      refine ⟨?_, rfl⟩
      rintro _ ⟨⟩
      exact hkind
    refine ⟨_, MemoryStore.leaves_kept hsound hkinds hgiven hrow identity.job, ?_⟩
    simp only [attrOf, hid, hattr, hsuper, hresolved, Option.bind_some, Option.map_some, hdefault]
    rfl

theorem Mirrors.mem_flattened_iff (hkinds : store.WellKinded) (job : String) (grade : Grade)
    (entry : String) :
    entry ∈ caches.flattened job grade ↔
      ∃ (role : Role) (id : AttributeId) (given : Option AttributeValue) (row : Attribute)
          (permission : Permission) (value : AttributeValue),
        store.Counts job grade role ∧ store.values[(role.id, id)]? = some given ∧
        store.attributes[id]? = some row ∧
        store.permissions[row.permission]? = some permission ∧
        store.Leaves job row given value ∧
        ∃ flat ∈ value.flat,
          entry = attributeGuardName permission.category permission.name row.key flat := by
  rw [Caches.mem_flattened_iff]
  simp only [h.mem_chain_iff hsound]
  constructor
  · rintro ⟨_, ⟨role, hrole, rfl⟩, id, value, hvalue, hentry⟩
    have hcached : store.valueOf role.id id = some value := (h.values role.id id).symm.trans hvalue
    rw [entryGuards, Catalog.attr, h.catalog.attributes] at hentry
    cases hrow : store.attributes[id]? with
    | none =>
      rw [hrow] at hentry
      cases hentry
    | some row =>
      rw [hrow] at hentry
      dsimp only at hentry
      rw [Catalog.permission, h.catalog.permissions] at hentry
      cases hpermission : store.permissions[row.permission]? with
      | none =>
        rw [hpermission] at hentry
        cases hentry
      | some permission =>
        rw [hpermission] at hentry
        obtain ⟨flat, hflat, rfl⟩ := List.mem_map.mp hentry
        rw [valueOf_of_counts hrole hrow, Option.map_eq_some_iff] at hcached
        obtain ⟨given, hgiven, rfl⟩ := hcached
        exact ⟨role, id, given, row, permission, _, hrole, hgiven, hrow, hpermission,
          MemoryStore.leaves_kept hsound hkinds hgiven hrow job, flat, hflat, rfl⟩
  · rintro ⟨role, id, given, row, permission, value, hrole, hgiven, hrow, hpermission, hleaves,
      flat, hflat, rfl⟩
    obtain rfl := hleaves.unique (MemoryStore.leaves_kept hsound hkinds hgiven hrow job)
    refine ⟨role.id, ⟨role, hrole, rfl⟩, id, row.kept (store.ceilingOf job id) given, ?_, ?_⟩
    · refine (h.values role.id id).trans ?_
      rw [valueOf_of_counts hrole hrow, hgiven, Option.map_some]
    · rw [entryGuards, Catalog.attr, h.catalog.attributes, hrow]
      dsimp only
      rw [Catalog.permission, h.catalog.permissions, hpermission]
      exact List.mem_map_of_mem hflat

/-- Caches that mirror a store answer as its rows specify. -/
theorem Mirrors.answers (hkinds : store.WellKinded) : caches.Answers store where
  can _ _ _ hsuper _ _ hrow hguard := h.can_known hsound hsuper hrow hguard
  can_unknown identity category name hsuper hunknown := by
    have hid : caches.permissionId category name = none := by
      rw [Option.eq_none_iff_forall_ne_some]
      intro id hid
      obtain ⟨row, hrow, hguard⟩ := h.permissionId_eq_some_iff.mp hid
      exact hunknown id row hrow hguard
    rw [Caches.can, hsuper, hid]
    rfl
  attr _ _ _ _ hsuper _ _ _ hrow hkey hpermission hguard :=
    h.attr_known hsound hkinds hsuper hrow hkey hpermission hguard
  attr_unknown identity category name key hunknown := by
    have hattr : (caches.permissionId category name).bind
        (caches.catalog.attributeByKey · key) = none := by
      rw [Option.eq_none_iff_forall_ne_some]
      intro row hrow
      obtain ⟨id, hid, hfound⟩ := Option.bind_eq_some_iff.mp hrow
      obtain ⟨permission, hpermission, hguard⟩ := h.permissionId_eq_some_iff.mp hid
      obtain ⟨hstored, rfl, hkey⟩ := (h.attributeByKey_eq_some_iff hsound).mp hfound
      exact hunknown row.id row permission hstored hkey hpermission hguard
    rw [attrOf, hattr]
  flattened := h.mem_flattened_iff hsound hkinds

end Answers

end Caches

namespace Session

/-- **A full load answers as specified.**  Whatever a session has done to a store and to caches, if
everything can be loaded then, the caches answer as the rows of the store specify; and loading does
not change these rows.  The store may not have run out of numbers. -/
theorem answers_of_loadAll (limit : Duration) (steps : List Step)
    (hroom : (reached limit steps).store.next ≤ UInt64.size) {report : Report}
    {loaded : Loaded MemoryStore}
    (hload : (MemoryStore.source limit).loadAll (reached limit steps) = (.ok report, loaded)) :
    loaded.store = (reached limit steps).store ∧ loaded.caches.Answers loaded.store := by
  have hconsistent := consistent_reached hroom
  have hstore := store_loadAll limit (reached limit steps)
  rw [hload] at hstore
  obtain ⟨hmirrors, hkinds⟩ := mirrors_of_loadAll hconsistent hload
  refine ⟨hstore, ?_⟩
  rw [hstore]
  exact hmirrors.answers hconsistent.sound hkinds

/-- After everything has been loaded, an officer may list the citizens but sees only their names. -/
theorem answers_after_hiring :
    let loaded := ((MemoryStore.source 0).loadAll (reached 0 hiring)).2
    let officer : Identity := { user := 1, job := "police", grade := 6 }
    (reached 0 hiring).store.next ≤ UInt64.size ∧
      ((MemoryStore.source 0).loadAll (reached 0 hiring)).1 = .ok ⟨5, 0, 0, 1⟩ ∧
      loaded.caches.Answers loaded.store ∧
      loaded.caches.can officer "citizens" "List" = true ∧
      loaded.caches.attrOf officer "citizens" "List" "fields" =
        .ok (some (.strings ⟨["name"]⟩)) := by
  intro loaded officer
  have hroom : (reached 0 hiring).store.next ≤ UInt64.size := by decide +kernel
  have hreport : ((MemoryStore.source 0).loadAll (reached 0 hiring)).1 = .ok ⟨5, 0, 0, 1⟩ := by
    decide +kernel
  exact ⟨hroom, hreport, (answers_of_loadAll 0 hiring hroom (Prod.ext hreport rfl)).2,
    by decide +kernel, by decide +kernel⟩

end Session

end GradedAccess
