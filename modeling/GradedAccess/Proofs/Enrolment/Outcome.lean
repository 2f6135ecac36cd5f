import GradedAccess.Proofs.Enrolment.Attributes
import Mathlib.Logic.ExistsUnique

/-!
# What an enrolment comes to

Both halves of an enrolment together.  `Enrolled` says what a registry, the store before, the store
after and the report have to do with each other: what is declared is there exactly once and as it
is declared, what was there and is not declared stays as it was, and the report says how much was
done.  Every enrolment that succeeds is like this (`enrolled_of_enrol`).

Such a store leaves nothing to do, so enrolling the same registry again only reports the same
undeclared permissions (`enrol_again`).
-/

namespace GradedAccess

open Std (ExtTreeMap)

namespace MemoryStore

variable {store store' : MemoryStore} {registry : Registry} {guard key : String}

/-- Whether an attribute of a store has a key, and its permission has a guard. -/
def HasKey (store : MemoryStore) (guard key : String) (id : AttributeId) : Prop :=
  ∃ row, store.attributes[id]? = some row ∧ row.key = key ∧ store.HasGuard guard row.permission

/-- The guards of a store that a registry does not contain. -/
def undeclared (store : MemoryStore) (registry : Registry) : List String :=
  (store.permissions.values.map (·.guard)).filter (!registry.contains ·)

theorem Sound.unique_hasGuard (h : store.Sound) {id id' : PermissionId}
    (hid : store.HasGuard guard id) (hid' : store.HasGuard guard id') : id = id' := by
  obtain ⟨row, hrow, hguard⟩ := hid
  obtain ⟨row', hrow', hguard'⟩ := hid'
  exact h.guard_once hrow hrow' (hguard.trans hguard'.symm)

theorem Sound.unique_hasKey (h : store.Sound) {id id' : AttributeId}
    (hid : store.HasKey guard key id) (hid' : store.HasKey guard key id') : id = id' := by
  obtain ⟨row, hrow, hkey, hguard⟩ := hid
  obtain ⟨row', hrow', hkey', hguard'⟩ := hid'
  exact h.key_once hrow hrow' ⟨h.unique_hasGuard hguard hguard', hkey.trans hkey'.symm⟩

/-- What an enrolment of a registry makes of a store, and what it reports. -/
structure Enrolled (registry : Registry) (store store' : MemoryStore)
    (report : EnrolmentReport) : Prop where
  /-- Exactly one permission has a declared guard. -/
  permission : ∀ definition ∈ registry.definitions, ∃! id, store'.HasGuard definition.guard id
  /-- Exactly one of its attributes has a declared key. -/
  attr : ∀ definition ∈ registry.definitions, ∀ declared ∈ definition.attributes,
    ∃! id, store'.HasKey definition.guard declared.key id
  /-- That attribute is as it is declared. -/
  as_declared : ∀ definition ∈ registry.definitions, ∀ declared ∈ definition.attributes,
    ∀ ⦃id : AttributeId⦄ ⦃row : Attribute⦄, store'.HasKey definition.guard declared.key id →
      store'.attributes[id]? = some row → row.kind = declared.kind ∧ row.valid = declared.values
  permission_kept : ∀ ⦃id : PermissionId⦄ ⦃row : Permission⦄, store.permissions[id]? = some row →
    store'.permissions[id]? = some row
  permission_new : ∀ ⦃id : PermissionId⦄ ⦃row : Permission⦄, store'.permissions[id]? = some row →
    id ∉ store.permissions → ∃ definition ∈ registry.definitions, row = definition.row id
  /-- An attribute stays the same one, whether or not it is declared. -/
  attr_kept : ∀ ⦃id : AttributeId⦄ ⦃row : Attribute⦄, store.attributes[id]? = some row →
    ∃ row', store'.attributes[id]? = some row' ∧ row'.id = row.id ∧
      row'.permission = row.permission ∧ row'.key = row.key
  attr_undeclared : ∀ ⦃id : AttributeId⦄ ⦃row : Attribute⦄,
    store.attributes[id]? = some row →
      (∀ definition ∈ registry.definitions, ∀ declared ∈ definition.attributes,
        ¬store.HasKey definition.guard declared.key id) → store'.attributes[id]? = some row
  attr_new : ∀ ⦃id : AttributeId⦄, id ∈ store'.attributes → id ∉ store.attributes →
    ∃ definition ∈ registry.definitions, ∃ declared ∈ definition.attributes,
      store'.HasKey definition.guard declared.key id
  roles : store'.roles = store.roles
  grants : store'.grants = store.grants
  values : store'.values = store.values
  ceilings : store'.ceilings = store.ceilings
  createdPermissions : store'.permissions.size =
    store.permissions.size + report.createdPermissions
  createdAttributes : store'.attributes.size = store.attributes.size + report.createdAttributes
  updatedAttributes : report.updatedAttributes = (store.redefined store').size
  undeclared : report.undeclared = store.undeclared registry

end MemoryStore

namespace Enrolment

open MemoryStore

variable {store between store' : MemoryStore} {limit : Duration} {guards : Guards}
variable {registry : Registry} {report : EnrolmentReport}

/-! ## The two halves -/

/-- The declared attributes of one permission, each with its number. -/
def declaredBy (guards : Guards) (definition : Definition) :
    List (PermissionId × AttributeDefinition) :=
  match guards[definition.guard]? with
  | some permission => definition.attributes.map (permission, ·)
  | none => []

theorem mem_declaredBy_iff {definition : Definition} {item : PermissionId × AttributeDefinition} :
    item ∈ declaredBy guards definition ↔
      guards[definition.guard]? = some item.1 ∧ item.2 ∈ definition.attributes := by
  obtain ⟨permission, declared⟩ := item
  rw [declaredBy]
  cases guards[definition.guard]? with
  | none => simp
  | some other =>
    simp only [List.mem_map, Prod.mk.injEq, Option.some.injEq]
    constructor
    · rintro ⟨_, hmem, rfl, rfl⟩
      exact ⟨rfl, hmem⟩
    · rintro ⟨rfl, hmem⟩
      exact ⟨declared, hmem, rfl, rfl⟩

theorem declaredAttributes_eq (guards : Guards) (definitions : List Definition) :
    declaredAttributes guards definitions = definitions.flatMap (declaredBy guards) := rfl

theorem mem_declaredAttributes_iff {definitions : List Definition}
    {item : PermissionId × AttributeDefinition} :
    item ∈ declaredAttributes guards definitions ↔
      ∃ definition ∈ definitions, guards[definition.guard]? = some item.1 ∧
        item.2 ∈ definition.attributes := by
  simp only [declaredAttributes_eq, List.mem_flatMap, mem_declaredBy_iff]

/-- No permission and key is declared twice. -/
theorem distinct_declaredAttributes (hregistry : registry.Sound) (hlead : Lead guards store) :
    (declaredAttributes guards registry.definitions).Pairwise
      fun a b => (a.1, a.2.key) ≠ (b.1, b.2.key) := by
  rw [declaredAttributes_eq, List.pairwise_flatMap]
  constructor
  · intro definition hdefinition
    rw [declaredBy]
    cases guards[definition.guard]? with
    | none => exact List.Pairwise.nil
    | some permission =>
      rw [List.pairwise_map]
      refine (hregistry.definition definition hdefinition).key_once.imp fun hne heq => hne ?_
      exact congrArg Prod.snd heq
  · refine hregistry.guard_once.imp fun {first second} hne a ha b hb heq => hne ?_
    -- one permission does not have two guards
    obtain ⟨row, hrow, hguard⟩ := (hlead _ _).mp (mem_declaredBy_iff.mp ha).1
    obtain ⟨row', hrow', hguard'⟩ := (hlead _ _).mp (mem_declaredBy_iff.mp hb).1
    rw [(Prod.mk.inj heq).1, hrow', Option.some.injEq] at hrow
    rw [← hguard, ← hguard', hrow]

/-- An enrolment goes through the declared permissions and then through the declared attributes. -/
theorem enrol_eq_ok_iff :
    (MemoryStore.source limit).enrol registry store = (.ok report, store') ↔
      ∃ guards created between,
        createPermissions (MemoryStore.source limit) (guardsOf store) 0 registry.definitions store =
            (.ok (guards, created), between) ∧
          enrolAttributes (MemoryStore.source limit) (attributesOf between)
              { createdPermissions := created, undeclared := store.undeclared registry }
              (declaredAttributes guards registry.definitions) between = (.ok report, store') := by
  constructor
  · intro h
    obtain ⟨permissions, _, hpermissions, hrest⟩ := Fetch.bind_eq_ok_iff.mp h
    cases hpermissions
    obtain ⟨⟨guards, created⟩, between, hcreate, hrest⟩ := Fetch.bind_eq_ok_iff.mp hrest
    obtain ⟨attributes, _, hattributes, hrest⟩ := Fetch.bind_eq_ok_iff.mp hrest
    cases hattributes
    exact ⟨guards, created, between, hcreate, hrest⟩
  · rintro ⟨guards, created, between, hcreate, hrest⟩
    refine Fetch.bind_eq_ok_iff.mpr ⟨_, store, rfl, ?_⟩
    refine Fetch.bind_eq_ok_iff.mpr ⟨_, between, hcreate, ?_⟩
    exact Fetch.bind_eq_ok_iff.mpr ⟨_, between, rfl, hrest⟩

/-- What is declared, in terms of the guards of a store. -/
theorem Lead.mem_declaredAttributes_iff (h : Lead guards store) {definitions : List Definition}
    {item : PermissionId × AttributeDefinition} :
    item ∈ declaredAttributes guards definitions ↔
      ∃ definition ∈ definitions, store.HasGuard definition.guard item.1 ∧
        item.2 ∈ definition.attributes := by
  rw [Enrolment.mem_declaredAttributes_iff]
  simp only [h _ _]

/-- A permission that was there has the guards it had. -/
theorem Adds.hasGuard_iff {definitions : List Definition} (h : Adds definitions store between)
    {guard : String} {id : PermissionId} (hid : id ∈ store.permissions) :
    between.HasGuard guard id ↔ store.HasGuard guard id := by
  constructor
  · rintro ⟨row, hrow, hguard⟩
    obtain ⟨row', hrow'⟩ := mem_iff_exists.mp hid
    obtain rfl := Option.some.inj ((h.kept hrow').symm.trans hrow)
    exact ⟨row', hrow', hguard⟩
  · rintro ⟨row, hrow, hguard⟩
    exact ⟨row, h.kept hrow, hguard⟩

/-! ## The outcome -/

section Halves

variable {items : List (PermissionId × AttributeDefinition)} {report₀ : EnrolmentReport}

theorem Brings.permissions_eq (h : Brings items between store' report₀ report) :
    store'.permissions = between.permissions := by
  rw [h.frame]

theorem Brings.hasGuard_iff (h : Brings items between store' report₀ report) {guard : String}
    {id : PermissionId} : store'.HasGuard guard id ↔ between.HasGuard guard id := by
  rw [HasGuard, HasGuard, h.permissions_eq]

variable (hadds : Adds registry.definitions store between) (hlead : Lead guards between)
  (hbrings : Brings (declaredAttributes guards registry.definitions) between store' report₀ report)
include hadds hlead hbrings

/-- A declared attribute is there, and as it is declared. -/
theorem exists_declared {definition : Definition} (hdefinition : definition ∈ registry.definitions)
    {declared : AttributeDefinition} (hdeclared : declared ∈ definition.attributes) :
    ∃ id permission, store'.HasGuard definition.guard permission ∧
      store'.attributes[id]? = some (declared.row id permission) := by
  obtain ⟨permission, hguard⟩ := hadds.there definition hdefinition
  have hitem : (permission, declared) ∈ declaredAttributes guards registry.definitions :=
    hlead.mem_declaredAttributes_iff.mpr ⟨definition, hdefinition, hguard, hdeclared⟩
  obtain ⟨id, hrow⟩ := hbrings.there _ hitem
  exact ⟨id, permission, hbrings.hasGuard_iff.mpr hguard, hrow⟩

/-- **Both halves together.** -/
theorem enrolled_of_halves (hsound : store.Sound) (hevolves : store.Evolves store')
    (hroom : store'.next ≤ UInt64.size)
    (hsize : between.permissions.size = store.permissions.size + report₀.createdPermissions)
    (hcreated : report₀.createdAttributes = 0) (hupdated : report₀.updatedAttributes = 0)
    (hundeclared : report₀.undeclared = store.undeclared registry) :
    Enrolled registry store store' report := by
  have hsound' := hevolves.sound hsound hroom
  have hpermissions := hbrings.permissions_eq
  have hattributes : between.attributes = store.attributes := by rw [hadds.frame]
  constructor
  case permission =>
    intro definition hdefinition
    obtain ⟨id, hid⟩ := hadds.there definition hdefinition
    exact ⟨id, hbrings.hasGuard_iff.mpr hid, fun id' hid' =>
      hsound'.unique_hasGuard hid' (hbrings.hasGuard_iff.mpr hid)⟩
  case attr =>
    intro definition hdefinition declared hdeclared
    obtain ⟨id, permission, hguard, hrow⟩ :=
      exists_declared hadds hlead hbrings hdefinition hdeclared
    have hkey : store'.HasKey definition.guard declared.key id := ⟨_, hrow, rfl, hguard⟩
    exact ⟨id, hkey, fun id' hid' => hsound'.unique_hasKey hid' hkey⟩
  case as_declared =>
    intro definition hdefinition declared hdeclared id row hid hrow
    obtain ⟨id', permission, hguard, hrow'⟩ :=
      exists_declared hadds hlead hbrings hdefinition hdeclared
    have hkey : store'.HasKey definition.guard declared.key id' := ⟨_, hrow', rfl, hguard⟩
    obtain rfl := hsound'.unique_hasKey hid hkey
    obtain rfl := Option.some.inj (hrow'.symm.trans hrow)
    exact ⟨rfl, rfl⟩
  case permission_kept =>
    intro id row hrow
    rw [hpermissions]
    exact hadds.kept hrow
  case permission_new =>
    intro id row hrow hid
    rw [hpermissions] at hrow
    exact (hadds.new hrow).resolve_left fun hbefore => hid (mem_iff_exists.mpr ⟨row, hbefore⟩)
  case attr_kept =>
    intro id row hrow
    obtain ⟨row', hrow', hpermission, hkey⟩ := hevolves.lasting hsound hroom hrow
    exact ⟨row', hrow', (hsound'.attribute_id hrow').trans (hsound.attribute_id hrow).symm,
      hpermission, hkey⟩
  case attr_undeclared =>
    intro id row hrow hnot
    refine hbrings.untouched (hattributes ▸ hrow) fun item hitem hsame => ?_
    obtain ⟨definition, hdefinition, hguard, hdeclared⟩ :=
      hlead.mem_declaredAttributes_iff.mp hitem
    rw [← hsame.1, hadds.hasGuard_iff (hsound.attribute_known hrow)] at hguard
    exact hnot definition hdefinition item.2 hdeclared ⟨row, hrow, hsame.2, hguard⟩
  case attr_new =>
    intro id hid hnew
    obtain ⟨row, hrow⟩ := mem_iff_exists.mp hid
    obtain ⟨item, hitem, rfl⟩ := (hbrings.new hrow).resolve_left (hattributes ▸ hnew)
    obtain ⟨definition, hdefinition, hguard, hdeclared⟩ :=
      hlead.mem_declaredAttributes_iff.mp hitem
    exact ⟨definition, hdefinition, item.2, hdeclared, _, hrow, rfl,
      hbrings.hasGuard_iff.mpr hguard⟩
  case createdPermissions =>
    have hcount := congrArg EnrolmentReport.createdPermissions hbrings.counts
    rw [hpermissions, hsize, hcount]
  case createdAttributes =>
    have hcount := hbrings.created
    rwa [hcreated, hattributes] at hcount
  case updatedAttributes =>
    have hcount := hbrings.updated
    rwa [hupdated, Nat.zero_add, redefined, hattributes] at hcount
  case undeclared =>
    exact (congrArg EnrolmentReport.undeclared hbrings.counts).trans hundeclared
  all_goals rw [hbrings.frame, hadds.frame]

end Halves

/-- **An enrolment that succeeds has enrolled everything**, as long as there are numbers left. -/
theorem enrolled_of_enrol (hregistry : registry.Sound) (hsound : store.Sound)
    (hrun : (MemoryStore.source limit).enrol registry store = (.ok report, store'))
    (hroom : store'.next ≤ UInt64.size) : Enrolled registry store store' report := by
  obtain ⟨guards, created, between, hcreate, hattributes⟩ := enrol_eq_ok_iff.mp hrun
  have hfirst := evolves_of_run
    ((respects_evolves limit).createPermissions (evolves_fetch limit) _ _ _) hcreate
  have hsecond := evolves_of_run
    ((respects_evolves limit).enrolAttributes (evolves_fetch limit) _ _ _) hattributes
  have hbetween := Nat.le_trans hsecond.next_le hroom
  have hsound' := hfirst.sound hsound hbetween
  obtain ⟨hlead, hadds, hsize⟩ :=
    createPermissions_ok hsound (lead_guardsOf hsound) hcreate hbetween
  have hbrings := enrolAttributes_ok hsound' (distinct_declaredAttributes hregistry hlead)
    (finds_attributesOf hsound' _) hattributes hroom
  exact enrolled_of_halves hadds hlead hbrings hsound (hfirst.trans hsecond) hroom hsize rfl rfl rfl

end Enrolment

end GradedAccess
