import GradedAccess.Proofs.Enrolment.Outcome
import GradedAccess.Proofs.Resolution.Loaded

/-!
# Enrolling again

After an enrolment nothing is left to do: enrolling the same registry again finds every guard and
every declared attribute as it is declared, and reports the same undeclared permissions as the first
time (`enrol_again`).  New permissions are declared ones, so they are not among these.

Once everything is loaded, a superuser is told the declared valid values of every declared
attribute.
-/

namespace GradedAccess

open Std (ExtTreeMap)

namespace MemoryStore

variable {store store' : MemoryStore} {registry : Registry} {report : EnrolmentReport}

/-- An enrolment leaves the same permissions undeclared. -/
theorem Enrolled.undeclared_eq (hregistry : registry.Sound)
    (h : store.Enrolled registry store' report) :
    store'.undeclared registry = store.undeclared registry := by
  rw [MemoryStore.undeclared, MemoryStore.undeclared, List.filter_map, List.filter_map,
    filter_values, filter_values]
  refine congrArg (fun table : ExtTreeMap PermissionId Permission =>
    table.values.map (·.guard)) ?_
  apply ExtTreeMap.ext_getElem?
  intro id
  rw [ExtTreeMap.getElem?_filter', ExtTreeMap.getElem?_filter']
  cases hbefore : store.permissions[id]? with
  | some row => rw [h.permission_kept hbefore]
  | none =>
    cases hafter : store'.permissions[id]? with
    | none => rfl
    | some row =>
      obtain ⟨definition, hdefinition, rfl⟩ := h.permission_new hafter (notMem_of_eq_none hbefore)
      have hdeclared : registry.contains (definition.row id).guard = true :=
        (hregistry.contains_iff _).mpr ⟨definition, hdefinition, rfl⟩
      simp [hdeclared]

end MemoryStore

namespace Enrolment

open MemoryStore

variable {σ : Type} {source : Source σ} {guards : Guards} {definitions : List Definition}
variable {stored : PairTable PermissionId String Attribute} {report : EnrolmentReport}
variable {items : List (PermissionId × AttributeDefinition)}

/-- Nothing is created if all guards are there. -/
theorem createPermissions_of_mem (count : Nat)
    (h : ∀ definition ∈ definitions, definition.guard ∈ guards) :
    createPermissions source guards count definitions = pure (guards, count) := by
  induction definitions with
  | nil => rfl
  | cons definition definitions ih =>
    rw [List.forall_mem_cons] at h
    rw [createPermissions, if_pos (ExtTreeMap.mem_iff_contains.mp h.1), ih h.2]

/-- An attribute that is as it is declared agrees with the declaration. -/
theorem agrees_of_same {declared : AttributeDefinition} {attr : Attribute}
    (hvalid : ∀ valid, declared.valid = some valid → valid.kind = declared.kind)
    (hkind : attr.kind = declared.kind) (hvalues : attr.valid = declared.values) :
    agrees declared attr = .ok true := by
  refine bind_eq_ok_iff.mpr ⟨_, AttributeValue.orDefault_eq_ok_iff.mpr ⟨hvalid, rfl⟩, ?_⟩
  have hsame : attr.valid = AttributeValue.orEmpty declared.kind declared.valid := hvalues
  rw [hkind, hsame, decide_eq_true rfl, decide_eq_true rfl]
  rfl

/-- Nothing is done if all attributes agree with their declarations. -/
theorem enrolAttributes_of_agree (h : ∀ item ∈ items, ∃ attr,
    stored[(item.1, item.2.key)]? = some attr ∧ agrees item.2 attr = .ok true) :
    enrolAttributes source stored report items = pure report := by
  induction items with
  | nil => rfl
  | cons item items ih =>
    rw [List.forall_mem_cons] at h
    obtain ⟨⟨attr, hstored, hagrees⟩, hrest⟩ := h
    have hfirst : enrolAttribute source stored report item.1 item.2 = pure report := by
      rw [enrolAttribute, hstored]
      dsimp only
      rw [hagrees]
      rfl
    rw [enrolAttributes, hfirst, pure_bind, ih hrest]

variable {limit : Duration} {store store' : MemoryStore} {registry : Registry}

/-- **Enrolling again changes nothing.** -/
theorem enrol_again (hregistry : registry.Sound) (hsound : store'.Sound)
    (h : store.Enrolled registry store' report) :
    (MemoryStore.source limit).enrol registry store' =
      (.ok { undeclared := report.undeclared }, store') := by
  have hlead := lead_guardsOf hsound
  have hguards : ∀ definition ∈ registry.definitions,
      definition.guard ∈ guardsOf store' := by
    intro definition hdefinition
    obtain ⟨id, hid, -⟩ := h.permission definition hdefinition
    exact mem_iff_exists.mpr ⟨id, (hlead _ _).mpr hid⟩
  refine enrol_eq_ok_iff.mpr ⟨guardsOf store', 0, store', ?_, ?_⟩
  · rw [createPermissions_of_mem 0 hguards]
    rfl
  · rw [enrolAttributes_of_agree, h.undeclared, h.undeclared_eq hregistry]
    · rfl
    · intro item hitem
      obtain ⟨definition, hdefinition, hguard, hdeclared⟩ :=
        hlead.mem_declaredAttributes_iff.mp hitem
      obtain ⟨id, ⟨attr, hattr, hkey, hguard'⟩, -⟩ := h.attr definition hdefinition _ hdeclared
      have hpermission := hsound.unique_hasGuard hguard' hguard
      obtain ⟨hkind, hvalues⟩ := h.as_declared definition hdefinition _ hdeclared
        ⟨attr, hattr, hkey, hguard'⟩ hattr
      obtain rfl := hsound.attribute_id hattr
      refine ⟨attr, (finds_attributesOf hsound _ item hitem attr).mpr ⟨hattr, hpermission, hkey⟩, ?_⟩
      exact agrees_of_same ((hregistry.definition definition hdefinition).valid_kind _ hdeclared)
        hkind hvalues

end Enrolment

/-- A superuser is told the valid values of an attribute. -/
theorem Caches.Mirrors.attrOf_superuser {caches : Caches} {store : MemoryStore}
    (h : caches.Mirrors store) (hsound : store.Sound) {identity : Identity}
    (hsuper : identity.superuser = true) {category name key : String} {id : AttributeId}
    {row : Attribute} (hrow : store.attributes[id]? = some row) (hkey : row.key = key)
    (hguard : store.HasGuard (guardName category name) row.permission) :
    caches.attrOf identity category name key = .ok (some row.valid) := by
  obtain rfl := hsound.attribute_id hrow
  have hid := h.permissionId_eq_some_iff.mpr hguard
  have hattr := (h.attributeByKey_eq_some_iff hsound).mpr ⟨hrow, rfl, hkey⟩
  rw [Caches.attrOf, hid, Option.bind_some, hattr]
  exact if_pos hsuper

namespace Session

variable {limit : Duration} {registry : Registry} {report : EnrolmentReport}
variable {state : Loaded MemoryStore} {store' : MemoryStore}

/-- An enrolment goes on with a session. -/
theorem Consistent.enrolled (h : Consistent state)
    (henrol : (MemoryStore.source limit).enrol registry state.store = (.ok report, store'))
    (hroom : store'.next ≤ UInt64.size) : Consistent ⟨state.caches, store'⟩ := by
  have hevolves := MemoryStore.evolves_of_run
    ((MemoryStore.respects_evolves limit).enrol (MemoryStore.evolves_fetch limit) registry) henrol
  exact (Continues.of_catalog_eq hevolves rfl id).consistent h hroom

/-- Once everything is loaded after an enrolment, a superuser is told what is declared. -/
theorem attrOf_declared {store : MemoryStore} (h : Consistent ⟨state.caches, store'⟩)
    (henrolled : store.Enrolled registry store' report) {loading : Report}
    {loaded : Loaded MemoryStore}
    (hload : (MemoryStore.source limit).loadAll ⟨state.caches, store'⟩ = (.ok loading, loaded))
    {identity : Identity} (hsuper : identity.superuser = true) {definition : Definition}
    (hdefinition : definition ∈ registry.definitions) {declared : AttributeDefinition}
    (hdeclared : declared ∈ definition.attributes) :
    loaded.caches.attrOf identity definition.category definition.name declared.key =
      .ok (some declared.values) := by
  obtain ⟨id, hid, -⟩ := henrolled.attr definition hdefinition declared hdeclared
  obtain ⟨row, hrow, hkey, hguard⟩ := hid
  obtain ⟨-, hvalues⟩ := henrolled.as_declared definition hdefinition declared hdeclared
    ⟨row, hrow, hkey, hguard⟩ hrow
  rw [← hvalues]
  exact (mirrors_of_loadAll h hload).1.attrOf_superuser h.sound hsuper hrow hkey hguard

/-- **Enrolment converges and is conservative.**  Whatever a session has done to a store, an
enrolment that succeeds makes the store hold what is declared, once and as it is declared, and
leaves everything else as it was; its report says how much that was.  Enrolling again does nothing
and reports the same undeclared permissions.  When everything can be loaded then, a superuser is
told the declared valid values of every declared attribute.  The store may not have run out of
numbers. -/
theorem enrolment_converges (limit : Duration) (steps : List Step) (hbuilt : registry.Built)
    (henrol : (MemoryStore.source limit).enrol registry (reached limit steps).store =
      (.ok report, store'))
    (hroom : store'.next ≤ UInt64.size) :
    (reached limit steps).store.Enrolled registry store' report ∧
      (MemoryStore.source limit).enrol registry store' =
        (.ok { undeclared := report.undeclared }, store') ∧
      ∀ (loading : Report) (loaded : Loaded MemoryStore),
        (MemoryStore.source limit).loadAll ⟨(reached limit steps).caches, store'⟩ =
            (.ok loading, loaded) →
          ∀ identity : Identity, identity.superuser = true →
            ∀ definition ∈ registry.definitions, ∀ declared ∈ definition.attributes,
              loaded.caches.attrOf identity definition.category definition.name declared.key =
                .ok (some declared.values) := by
  have hevolves := MemoryStore.evolves_of_run
    ((MemoryStore.respects_evolves limit).enrol (MemoryStore.evolves_fetch limit) registry) henrol
  have hconsistent := consistent_reached (Nat.le_trans hevolves.next_le hroom)
  have hafter := hconsistent.enrolled henrol hroom
  have henrolled := Enrolment.enrolled_of_enrol hbuilt.sound hconsistent.sound henrol hroom
  refine ⟨henrolled, Enrolment.enrol_again hbuilt.sound hafter.sound henrolled, ?_⟩
  intro loading loaded hload identity hsuper definition hdefinition declared hdeclared
  exact attrOf_declared hafter henrolled hload hsuper hdefinition hdeclared

/-- Two declared permissions, one of them with two attributes. -/
def roster : Registry where
  definitions :=
    [{ category := "citizens", name := "List"
       attributes := [{ key := "fields", kind := .stringList, valid := some (.strings ⟨["name"]⟩) },
         { key := "jobs", kind := .jobList }] },
     { category := "vehicles", name := "Impound" }]

theorem built_roster : roster.Built := by
  have hfirst : Registry.register {} roster.definitions[0] =
      .ok { definitions := [roster.definitions[0]] } := by
    decide +kernel
  have hsecond : Registry.register { definitions := [roster.definitions[0]] }
      roster.definitions[1] = .ok roster := by
    decide +kernel
  exact .register (.register .empty hfirst) hsecond

/-- A session that has created one of these permissions, with other valid values, and one that is not
declared. -/
def staffing : List Step :=
  hiring ++ [.operation (.createPermission ⟨"weapons", "Store", 0⟩)]

/-- One permission and one attribute are missing, and another attribute has other valid values. -/
theorem roster_enrolled :
    let before := reached 0 staffing
    let enrolled := (MemoryStore.source 0).enrol roster before.store
    let report : EnrolmentReport := ⟨1, 1, 1, ["weapons-store"]⟩
    let loaded := (MemoryStore.source 0).loadAll ⟨before.caches, enrolled.2⟩
    let chief : Identity := { user := 1, job := "police", grade := 9, superuser := true }
    roster.Built ∧ enrolled.1 = .ok report ∧ enrolled.2.next ≤ UInt64.size ∧
      before.store.Enrolled roster enrolled.2 report ∧
      (MemoryStore.source 0).enrol roster enrolled.2 =
        (.ok { undeclared := ["weapons-store"] }, enrolled.2) ∧
      loaded.1 = .ok ⟨8, 0, 0, 1⟩ ∧
      loaded.2.caches.attrOf chief "citizens" "List" "fields" =
        .ok (some (.strings ⟨["name"]⟩)) := by
  intro before enrolled report loaded chief
  have henrolled : enrolled.1 = .ok report := by decide +kernel
  have hroom : enrolled.2.next ≤ UInt64.size := by decide +kernel
  have hload : loaded.1 = .ok ⟨8, 0, 0, 1⟩ := by decide +kernel
  have hrun := Fetch.run_eq ((MemoryStore.source 0).enrol roster) before.store henrolled
  have hloaded := Fetch.run_eq (MemoryStore.source 0).loadAll ⟨before.caches, enrolled.2⟩ hload
  obtain ⟨houtcome, hagain, hsuper⟩ := enrolment_converges 0 staffing built_roster hrun hroom
  refine ⟨built_roster, henrolled, hroom, houtcome, hagain, hload, ?_⟩
  exact hsuper ⟨8, 0, 0, 1⟩ loaded.2 hloaded chief rfl
    { category := "citizens", name := "List"
      attributes := [{ key := "fields", kind := .stringList, valid := some (.strings ⟨["name"]⟩) },
        { key := "jobs", kind := .jobList }] } List.mem_cons_self
    { key := "fields", kind := .stringList, valid := some (.strings ⟨["name"]⟩) } List.mem_cons_self

end Session

end GradedAccess
