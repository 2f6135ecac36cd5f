import GradedAccess.Proofs.Catalog
import GradedAccess.Proofs.Reload.Mirror
import GradedAccess.Proofs.Roles.Replace
import GradedAccess.Proofs.Store.Listing

/-!
# Loading everything

A full load of a store that keeps its rules gives caches that mirror the store, whatever the caches
held before (`Mirrors.of_load`).  Two things about the earlier caches are needed after all.  Their
roles have to be filed under their own numbers, and the keys they keep must lead to attributes that
still have them.  Both hold of all caches that were filled from the same store.

The load succeeds exactly when every value and every maximum is of the kind of its attribute.
-/

namespace GradedAccess

open Std (ExtTreeMap)

namespace MemoryStore

variable {store : MemoryStore}

/-! ## What the rows of a store refer to -/

theorem any_permissions_iff (h : store.Sound) {id : PermissionId} :
    store.rows.permissions.any (·.id = id) = true ↔ id ∈ store.permissions := by
  rw [List.any_eq_true, mem_iff_exists]
  constructor
  · rintro ⟨row, hmem, hid⟩
    obtain ⟨id', hrow⟩ := mem_values_iff.mp hmem
    rw [decide_eq_true_eq, h.permission_id hrow] at hid
    exact ⟨row, hid ▸ hrow⟩
  · rintro ⟨row, hrow⟩
    exact ⟨row, mem_values_iff.mpr ⟨id, hrow⟩, decide_eq_true (h.permission_id hrow)⟩

/-- All attributes of a store belong to permissions that are there. -/
theorem Sound.knownAttributes_rows (h : store.Sound) :
    Caches.knownAttributes store.rows = store.attributes := by
  have hall : (store.rows.attributes.filter fun attr =>
      store.rows.permissions.any (·.id = attr.permission)) = store.attributes.values := by
    refine List.filter_eq_self.mpr fun row hmem => ?_
    obtain ⟨id, hrow⟩ := mem_values_iff.mp hmem
    exact (any_permissions_iff h).mpr (h.attribute_known hrow)
  rw [Caches.knownAttributes, hall]
  exact ofList_values Attribute.id h.attribute_id

theorem Sound.rolesById_rows (h : store.Sound) :
    Caches.rolesById store.rows.roles = store.roles := by
  have hroles : store.rows.roles = store.roles.values := store.listRoles_none
  rw [Caches.rolesById, hroles]
  exact ofList_values Role.id h.role_id

theorem Sound.jobOf_knownIn (h : store.Sound) (id : RoleId) :
    (Caches.knownIn store.rows).jobOf id = store.roles[id]?.map (·.job) := by
  rw [Caches.knownIn, h.rolesById_rows]

theorem Sound.attr_knownIn (h : store.Sound) (id : AttributeId) :
    (Caches.knownIn store.rows).attr id = store.attributes[id]? := by
  rw [Caches.knownIn, h.knownAttributes_rows]

theorem Sound.permission_knownIn (h : store.Sound) {id : PermissionId}
    (hmem : id ∈ store.permissions) : (Caches.knownIn store.rows).permission id = true :=
  (any_permissions_iff h).mpr hmem

/-! ## When the rows of a store fit -/

/-- The row of a ceiling fits if all maxima are of the kind of their attribute. -/
theorem WellKinded.ceilingFits {known : Known} (h : store.WellKinded)
    (hattr : ∀ id, known.attr id = store.attributes[id]?) {row : Ceiling}
    (hrow : store.ceilings[(row.job, row.attr)]? = some row.most) : known.CeilingFits row := by
  intro attr hfound v hv
  rw [hattr] at hfound
  exact h.most (hv ▸ hrow) hfound

/-- The row of a value fits if all values and all ceilings are of the kind of their attribute. -/
theorem WellKinded.valueFits {known : Known}
    {ceiling : String → AttributeId → Option AttributeValue} (h : store.WellKinded)
    (hsound : store.Sound) (hattr : ∀ id, known.attr id = store.attributes[id]?)
    (hceiling : ∀ (job : String) (id : AttributeId) (most : AttributeValue) (attr : Attribute),
      ceiling job id = some most → store.attributes[id]? = some attr → most.kind = attr.kind)
    {row : RoleValue} (hrow : store.values[(row.role, row.attr)]? = some row.value) :
    known.ValueFits ceiling row := by
  intro job attr hjob hfound
  rw [hattr] at hfound
  have hid : attr.id = row.attr := hsound.attribute_id hfound
  refine ⟨fun v hv => h.value (hv ▸ hrow) hfound, hsound.valid_kind hfound, ?_⟩
  intro v hv
  exact hceiling job attr.id v attr hv (hid ▸ hfound)

/-- The ceilings that are left of a listing are those of the store. -/
theorem lastFor_ceilingOf {known : Known} (hattr : ∀ id, known.attr id = store.attributes[id]?)
    {asked : Option String} {job : String} (hasked : belongsTo asked job) (attr : AttributeId) :
    PairTable.lastFor (job, attr) ((store.listCeilings asked).filterMap known.ceilingEntry) =
      store.ceilingOf job attr := by
  have hrows := store.filter_listCeilings asked job
  rw [if_pos hasked] at hrows
  rw [Known.lastFor_ceilingEntries hrows, ceilingOf, hattr]

end MemoryStore

namespace Caches

variable {caches after : Caches} {report : Report} {rows : Rows} {store : MemoryStore}

/-- What a full load has screened and what it has made of it. -/
theorem load_eq_ok (h : caches.load rows = .ok (after, report)) :
    ∃ ceilings values,
      (knownIn rows).screenCeilings rows.ceilings = .ok ceilings ∧
      (knownIn rows).screenValues (fun job attr => ceilings.toCeilings[(job, attr)]?) rows.values =
        .ok values ∧
      after = {
        catalog := ((caches.catalog.replacePermissions rows.permissions).1.replaceAttributes
          (knownAttributes rows).values).1
        roles := (caches.roles.replaceAll rows.roles).1
        grants := (caches.grants.replaceRows caches.grants.firsts
          ((knownIn rows).screenGrants rows.grants).entries).1
        values := (caches.values.replaceRows caches.values.firsts values.entries).1
        ceilings := (caches.ceilings.replaceRows caches.ceilings.firsts
          (ceilings.toCeilings.toList.map fun entry => (entry.1.1, entry.1.2, entry.2))).1 } := by
  simp only [load, bind_eq_ok_iff] at h
  obtain ⟨ceilings, hceilings, values, hvalues, h⟩ := h
  have hafter := congrArg Prod.fst (Except.ok.inj h)
  exact ⟨ceilings, values, hceilings, hvalues, hafter.symm⟩

/-! ## The catalog -/

/-- Whether every key of the catalog leads to an attribute that has it in a store. -/
def KeysAgree (caches : Caches) (store : MemoryStore) : Prop :=
  ∀ ⦃permission : PermissionId⦄ ⦃key : String⦄ ⦃id : AttributeId⦄,
    caches.catalog.keys[(permission, key)]? = some id →
      ∃ row, store.attributes[id]? = some row ∧ row.permission = permission ∧ row.key = key

theorem catalog_of_load (h : store.Sound) (hkeys : caches.KeysAgree store) :
    Mirrors.Catalog ((caches.catalog.replacePermissions store.rows.permissions).1.replaceAttributes
      (knownAttributes store.rows).values).1 store where
  permissions := MemoryStore.ofList_values Permission.id h.permission_id
  guards guard id := by
    refine (MemoryStore.getElem?_ofList_values h.guard_once Permission.id).trans ?_
    constructor
    · rintro ⟨id', row, hrow, hguard, rfl⟩
      exact ⟨row, h.permission_id hrow ▸ hrow, hguard⟩
    · rintro ⟨row, hrow, hguard⟩
      exact ⟨id, row, hrow, hguard, h.permission_id hrow⟩
  attributes := by
    rw [h.knownAttributes_rows]
    exact MemoryStore.ofList_values Attribute.id h.attribute_id
  keys permission key id := by
    have hapart : MemoryStore.TellsApart store.attributes fun row => (row.permission, row.key) :=
      fun _ _ _ _ hrow hrow' heq => h.key_once hrow hrow' (Prod.mk.inj heq)
    have hlast : PairTable.lastFor (permission, key)
        (store.attributes.values.map fun row => ((row.permission, row.key), row.id)) = some id ↔
          ∃ row, store.attributes[id]? = some row ∧ row.permission = permission ∧
            row.key = key := by
      have hdistinct : (store.attributes.values.map fun row =>
          ((row.permission, row.key), row.id)).Pairwise fun a b => a.1 ≠ b.1 :=
        List.pairwise_map.mpr (MemoryStore.distinct_values hapart)
      rw [PairTable.lastFor_eq_some_iff hdistinct, List.mem_map]
      constructor
      · rintro ⟨row, hmem, heq⟩
        obtain ⟨id', hrow⟩ := mem_values_iff.mp hmem
        obtain ⟨hkey, rfl⟩ := Prod.mk.inj heq
        exact ⟨row, h.attribute_id hrow ▸ hrow, Prod.mk.inj hkey⟩
      · rintro ⟨row, hrow, rfl, rfl⟩
        exact ⟨row, mem_values_iff.mpr ⟨id, hrow⟩, by rw [h.attribute_id hrow]⟩
    rw [Catalog.getElem?_keys_replaceAttributes, h.knownAttributes_rows, Option.or_eq_some_iff,
      hlast]
    refine or_iff_left_of_imp ?_
    -- a key that is kept from before belongs to its attribute as it is now
    rintro ⟨-, hkept⟩
    exact hkeys (Option.filter_eq_some_iff.mp hkept).1

/-! ## Roles, and what is set for them -/

theorem role_of_load {index : RoleIndex} (h : store.Sound) (hfiled : index.Filed) (id : RoleId) :
    (index.replaceAll store.rows.roles).1.role id = store.roles[id]? := by
  have hroles : store.rows.roles = store.roles.values := store.listRoles_none
  ext row
  rw [hroles, RoleIndex.role_replaceAll h.distinct_roles hfiled,
    RoleIndex.mem_claims_iff_of_slots h.slots_roles, h.mem_values_roles]
  constructor
  · rintro ⟨rfl, hrow, -⟩
    exact hrow
  · intro hrow
    obtain rfl := h.role_id hrow
    exact ⟨rfl, hrow, rfl⟩

theorem roleId_of_load {index : RoleIndex} (h : store.Sound) (hfiled : index.Filed) (job : String)
    (grade : Grade) (id : RoleId) :
    (index.replaceAll store.rows.roles).1.roleId job grade = some id ↔
      ∃ row, store.roles[id]? = some row ∧ row.job = job ∧ row.grade = grade := by
  have hroles : store.rows.roles = store.roles.values := store.listRoles_none
  rw [hroles, RoleIndex.roleId_replaceAll h.distinct_roles hfiled,
    RoleIndex.isLowest_iff_of_slots h.slots_roles]
  constructor
  · rintro ⟨row, hrow, hjob, hgrade, rfl⟩
    exact ⟨row, h.mem_values_roles.mp hrow, hjob, hgrade⟩
  · rintro ⟨row, hrow, hjob, hgrade⟩
    obtain rfl := h.role_id hrow
    exact ⟨row, h.mem_values_roles.mpr hrow, hjob, hgrade, rfl⟩

theorem grant_of_load (h : store.Sound) (role : RoleId) (permission : PermissionId) :
    PairTable.lastFor permission (PairTable.freshRow
        ((knownIn store.rows).screenGrants store.rows.grants).entries role) =
      store.grants[(role, permission)]? := by
  have hrows := store.filter_listGrants none role
  rw [if_pos (belongsTo_none role)] at hrows
  refine (Known.lastFor_screenGrants hrows permission).trans ?_
  cases hgrant : store.grants[(role, permission)]? with
  | none => rfl
  | some value =>
    obtain ⟨hrole, hpermission⟩ := h.grant_known (mem_iff_exists.mpr ⟨value, hgrant⟩)
    obtain ⟨row, hrow⟩ := mem_iff_exists.mp hrole
    rw [Option.bind_some, h.jobOf_knownIn, hrow, h.permission_knownIn hpermission]
    rfl

theorem value_of_load (h : store.Sound) {ceiling : String → AttributeId → Option AttributeValue}
    (hceiling : ∀ job attr, ceiling job attr = store.ceilingOf job attr) (role : RoleId)
    (attr : AttributeId) :
    PairTable.lastFor attr (PairTable.freshRow
        (store.rows.values.filterMap ((knownIn store.rows).valueEntry ceiling)) role) =
      store.valueOf role attr := by
  have hrows := store.filter_listValues none role
  rw [if_pos (belongsTo_none role)] at hrows
  refine (Known.lastFor_valueEntries hrows attr).trans ?_
  rw [MemoryStore.valueOf, h.jobOf_knownIn, h.attr_knownIn]
  cases store.values[(role, attr)]? with
  | none => rfl
  | some value =>
    cases store.roles[role]? with
    | none => rfl
    | some owner =>
      cases hattr : store.attributes[attr]? with
      | none => rfl
      | some row =>
        simp only [Option.bind_some, Option.map_some, hceiling, h.attribute_id hattr]

/-! ## The whole load -/

/-- The ceilings that are left of all ceilings are those of the store. -/
theorem getElem?_toCeilings_of_load (h : store.Sound)
    {ceilings : Screened ((String × AttributeId) × AttributeValue)}
    (hceilings : (knownIn store.rows).screenCeilings store.rows.ceilings = .ok ceilings)
    (job : String) (attr : AttributeId) :
    ceilings.toCeilings[(job, attr)]? = store.ceilingOf job attr := by
  obtain ⟨-, hentries⟩ := Known.exists_screenCeilings_iff.mp ⟨ceilings, hceilings, rfl⟩
  rw [Screened.toCeilings, PairTable.getElem?_ofList, hentries]
  exact MemoryStore.lastFor_ceilingOf h.attr_knownIn rfl attr

/-- **A full load gives caches that mirror the store.**  What the caches held before is gone. -/
theorem Mirrors.of_load (h : store.Sound) (hfiled : caches.roles.Filed)
    (hkeys : caches.KeysAgree store) (hload : caches.load store.rows = .ok (after, report)) :
    after.Mirrors store := by
  obtain ⟨ceilings, values, hceilings, hvalues, rfl⟩ := load_eq_ok hload
  have hceiling := getElem?_toCeilings_of_load h hceilings
  obtain ⟨-, hentries⟩ := Known.exists_screenValues_iff.mp ⟨values, hvalues, rfl⟩
  exact {
    catalog := catalog_of_load h hkeys
    roles := role_of_load h hfiled
    slots := roleId_of_load h hfiled
    grants := fun role permission => by
      rw [grant, PairTable.getElem?_replaceRows_firsts, grant_of_load h]
    values := fun role attr => by
      rw [value, PairTable.getElem?_replaceRows_firsts, hentries, value_of_load h hceiling]
    ceilings := fun job attr => by
      rw [ceiling, PairTable.getElem?_replaceRows_firsts, ← PairTable.lastFor_pair,
        PairTable.lastFor_toList, hceiling] }

/-- A full load succeeds exactly when all values and maxima are of the kind of their attribute. -/
theorem exists_load_iff (h : store.Sound) :
    (∃ after report, caches.load store.rows = .ok (after, report)) ↔ store.WellKinded := by
  constructor
  · rintro ⟨after, report, hload⟩
    obtain ⟨ceilings, values, hceilings, hvalues, -⟩ := load_eq_ok hload
    obtain ⟨hmosts, -⟩ := Known.exists_screenCeilings_iff.mp ⟨ceilings, hceilings, rfl⟩
    obtain ⟨hfits, -⟩ := Known.exists_screenValues_iff.mp ⟨values, hvalues, rfl⟩
    constructor
    · intro role attr value row hvalue hrow
      obtain ⟨owner, howner⟩ :=
        mem_iff_exists.mp (h.value_known (mem_iff_exists.mpr ⟨_, hvalue⟩)).1
      have hlisted : ⟨role, attr, some value⟩ ∈ store.rows.values :=
        MemoryStore.mem_listValues.mpr ⟨hvalue, rfl⟩
      refine (hfits _ hlisted owner.job row ?_ ?_).1 value rfl
      · rw [h.jobOf_knownIn, howner]
        rfl
      · rwa [h.attr_knownIn]
    · intro job attr most row hmost hrow
      have hlisted : ⟨job, attr, some most⟩ ∈ store.rows.ceilings :=
        MemoryStore.mem_listCeilings.mpr ⟨hmost, rfl⟩
      exact hmosts _ hlisted row (by rwa [h.attr_knownIn]) most rfl
  · intro hkinds
    have hmosts : ∀ row ∈ store.rows.ceilings, (knownIn store.rows).CeilingFits row :=
      fun row hmem => hkinds.ceilingFits h.attr_knownIn (MemoryStore.mem_listCeilings.mp hmem).1
    obtain ⟨ceilings, hceilings, -⟩ := Known.exists_screenCeilings_iff.mpr ⟨hmosts, rfl⟩
    have hceiling := getElem?_toCeilings_of_load h hceilings
    have hfits : ∀ row ∈ store.rows.values, (knownIn store.rows).ValueFits
        (fun job attr => ceilings.toCeilings[(job, attr)]?) row := by
      intro row hmem
      refine hkinds.valueFits h h.attr_knownIn (fun job id most attr hmost hattr => ?_)
        (MemoryStore.mem_listValues.mp hmem).1
      rw [hceiling] at hmost
      exact hkinds.kind_ceilingOf hmost hattr
    obtain ⟨values, hvalues, -⟩ := Known.exists_screenValues_iff.mpr ⟨hfits, rfl⟩
    have hload : ∃ state, caches.load store.rows = .ok state := by
      simp only [load, bind_eq_ok_iff]
      exact ⟨_, ceilings, hceilings, values, hvalues, rfl⟩
    obtain ⟨state, hstate⟩ := hload
    exact ⟨state.1, state.2, hstate⟩

end Caches

end GradedAccess
