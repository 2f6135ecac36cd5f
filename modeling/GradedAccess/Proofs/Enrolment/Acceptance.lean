import GradedAccess.Proofs.Enrolment.Outcome
import GradedAccess.Proofs.Store.Reach

/-!
# What can be enrolled

A registry checks declarations before there is a store, and a store checks rows when they are
created.  The two agree on everything but blank keys: a registry accepts an attribute with a blank
key, and a store refuses it.  So an enrolment succeeds exactly if no declared key is blank, whatever
the store holds, and there is only one fault it can end with (`enrols_iff_noneKeyless`).

Nothing else can go wrong.  A permission is only created when no permission has its guard
(`Enrolment.Lead`), an attribute only when its permission exists and has no attribute with its key
(`Enrolment.Finds`), and an attribute that is redefined has a key that has been accepted before
(`MemoryStore.NoneKeyless`).
-/

namespace GradedAccess

/-- Whether no declared attribute has a blank key. -/
def Registry.NoneKeyless (registry : Registry) : Prop :=
  ∀ definition ∈ registry.definitions, ∀ declared ∈ definition.attributes,
    isBlank declared.key = false

namespace MemoryStore

variable {store : MemoryStore} {permission : PermissionId} {declared : AttributeDefinition}

/-- A declared permission whose guard is new is created. -/
theorem createPermission_of_new {definition : Definition}
    (hguarded : definition.guard.isEmpty = false)
    (hnew : ∀ id, ¬store.HasGuard definition.guard id) :
    store.createPermission ⟨definition.category, definition.name, definition.order⟩ =
      (.ok (definition.row store.nextId), store.withPermission definition) := by
  have hmake : Permission.make? store.nextId definition.category definition.name definition.order =
      .ok (definition.row store.nextId) := by
    rw [Permission.make?]
    exact if_neg (ne_true_of_eq_false hguarded)
  have hfree : ¬(store.permissions.toList.any fun entry =>
      entry.2.guard = (definition.row store.nextId).guard) = true := by
    intro htaken
    obtain ⟨⟨id, row⟩, hmem, hguard⟩ := List.any_eq_true.mp htaken
    rw [Std.ExtTreeMap.mem_toList_iff_getElem?_eq_some] at hmem
    exact hnew id ⟨row, hmem, of_decide_eq_true hguard⟩
  rw [createPermission, hmake]
  exact if_neg hfree

/-- A declared attribute can be made under a number if its key is not blank. -/
theorem make?_of_shown (hkind : ∀ valid, declared.valid = some valid → valid.kind = declared.kind)
    (hkey : isBlank declared.key = false) (id : AttributeId) :
    Attribute.make? id permission declared.key declared.kind declared.valid =
      .ok (declared.row id permission) := by
  rw [Attribute.make?, if_neg (ne_true_of_eq_false hkey)]
  have hvalid : AttributeValue.orDefault declared.kind declared.valid = .ok declared.values :=
    AttributeValue.orDefault_eq_ok_iff.mpr ⟨hkind, rfl⟩
  exact bind_eq_ok_iff.mpr ⟨declared.values, hvalid, rfl⟩

/-- A key of a permission that no attribute has is free. -/
theorem ensureFreeKey_of_new {key : String} (hpermission : permission ∈ store.permissions)
    (hsound : store.Sound) (hnew : ∀ attr, ¬store.Keyed permission key attr) :
    store.ensureFreeKey permission key = .ok () := by
  have hfree : ¬(store.attributes.toList.any fun entry =>
      entry.2.permission = permission && entry.2.key = key) = true := by
    intro htaken
    obtain ⟨⟨id, row⟩, hmem, hsame⟩ := List.any_eq_true.mp htaken
    rw [Std.ExtTreeMap.mem_toList_iff_getElem?_eq_some] at hmem
    obtain rfl := hsound.attribute_id hmem
    rw [Bool.and_eq_true, decide_eq_true_eq, decide_eq_true_eq] at hsame
    exact hnew row ⟨hmem, hsame⟩
  rw [ensureFreeKey, ensurePermission_eq_ok_iff.mpr hpermission]
  exact if_neg hfree

end MemoryStore

namespace Enrolment

open MemoryStore

variable (limit : Duration) {store between : MemoryStore} {registry : Registry} {guards : Guards}
variable {definitions : List Definition}
variable {permission : PermissionId} {declared : AttributeDefinition} {report : EnrolmentReport}
variable {stored : PairTable PermissionId String Attribute}
variable {items : List (PermissionId × AttributeDefinition)}

/-- **Permissions are created without a fault** if they have guard names. -/
theorem exists_createPermissions (hsound : store.Sound) (hlead : Lead guards store)
    (hguarded : ∀ definition ∈ definitions, definition.guard.isEmpty = false) (count : Nat)
    (hroom : (createPermissions (MemoryStore.source limit) guards count definitions store).2.next ≤
      UInt64.size) :
    ∃ created store',
      createPermissions (MemoryStore.source limit) guards count definitions store =
        (.ok created, store') := by
  induction definitions generalizing guards count store with
  | nil => exact ⟨_, _, rfl⟩
  | cons definition definitions ih =>
    rw [List.forall_mem_cons] at hguarded
    rw [createPermissions] at hroom ⊢
    split at hroom
    · next hcontains =>
      rw [if_pos hcontains]
      exact ih hsound hlead hguarded.2 count hroom
    · next hcontains =>
      rw [if_neg hcontains]
      have hnew : ∀ id, ¬store.HasGuard definition.guard id := fun id hid =>
        hcontains (mem_iff_exists.mpr ⟨id, (hlead _ id).mpr hid⟩)
      have hcreate : (MemoryStore.source limit).fetch "permission registration"
          (.createPermission ⟨definition.category, definition.name, definition.order⟩) store =
            (.ok (definition.row store.nextId), store.withPermission definition) := by
        rw [MemoryStore.fetch_source, MemoryStore.answer]
        exact createPermission_of_new hguarded.1 hnew
      rw [Fetch.bind_of_ok hcreate] at hroom ⊢
      have hevolves := (respects_evolves limit).createPermissions (evolves_fetch limit)
        (guards.insert definition.guard (definition.row store.nextId).id) (count + 1) definitions
        (store.withPermission definition)
      have hbetween := Nat.le_trans hevolves.next_le hroom
      have hsound' := (evolves_of_run (evolves_fetch limit _ _) hcreate).sound hsound hbetween
      have hid : store.nextId ∉ store.permissions :=
        nextId_notMem hsound.permission_given hbetween
      exact ih hsound' (hlead.insert hcontains hid) hguarded.2 (count + 1) hroom

/-! ## Attributes -/

section Attributes

variable (hsound : store.Sound) (hpermission : permission ∈ store.permissions)
  (hfind : ∀ attr, stored[(permission, declared.key)]? = some attr ↔
    store.Keyed permission declared.key attr)
include hsound hpermission hfind

/-- An attribute whose key is not blank is enrolled. -/
theorem exists_enrolAttribute
    (hkind : ∀ valid, declared.valid = some valid → valid.kind = declared.kind)
    (hkey : isBlank declared.key = false) (report : EnrolmentReport) :
    ∃ report' store', enrolAttribute (MemoryStore.source limit) stored report permission declared
      store = (.ok report', store') := by
  rw [enrolAttribute]
  cases hstored : stored[(permission, declared.key)]? with
  | none =>
    have hnew : ∀ attr, ¬store.Keyed permission declared.key attr := by
      intro attr hattr
      rw [← hfind, hstored] at hattr
      cases hattr
    have hcreate : store.createAttribute
        ⟨permission, declared.key, declared.kind, declared.valid⟩ =
          (.ok (declared.row store.nextId permission),
            store.advance.withAttribute store.nextId permission declared) := by
      simp only [createAttribute, ensureFreeKey_of_new hpermission hsound hnew,
        make?_of_shown hkind hkey]
      rfl
    exact ⟨_, _, Fetch.bind_eq_ok_iff.mpr ⟨_, _, hcreate, rfl⟩⟩
  | some attr =>
    obtain ⟨hrow, rfl, hown⟩ := (hfind attr).mp hstored
    have hagrees : agrees declared attr =
        .ok (attr.kind = declared.kind && attr.valid = declared.values) :=
      bind_eq_ok_iff.mpr ⟨_, AttributeValue.orDefault_eq_ok_iff.mpr ⟨hkind, rfl⟩, rfl⟩
    simp only [hagrees]
    generalize (attr.kind = declared.kind && attr.valid = declared.values : Bool) = agreeing
    cases agreeing with
    | true => exact ⟨_, _, rfl⟩
    | false =>
      have hredefine : store.redefine attr.id declared.kind declared.valid =
          (.ok (), store.withAttribute attr.id attr.permission declared) := by
        simp only [redefine, hrow, hown, make?_of_shown hkind hkey]
        rfl
      exact ⟨_, _, Fetch.bind_eq_ok_iff.mpr ⟨_, _, rfl,
        Fetch.bind_eq_ok_iff.mpr ⟨_, _, hredefine, rfl⟩⟩⟩

/-- An attribute with a blank key is not stored, and cannot be created. -/
theorem enrolAttribute_of_blank (hkeys : store.NoneKeyless) (hkey : isBlank declared.key = true)
    (report : EnrolmentReport) :
    enrolAttribute (MemoryStore.source limit) stored report permission declared store =
      (.error (.keyless store.nextId permission), store.advance) := by
  have hnew : ∀ attr, ¬store.Keyed permission declared.key attr := by
    rintro attr ⟨hrow, -, hown⟩
    have hshown := hkeys hrow
    rw [hown, hkey] at hshown
    cases hshown
  have hstored : stored[(permission, declared.key)]? = none :=
    Option.eq_none_iff_forall_ne_some.mpr fun attr hattr => hnew attr ((hfind attr).mp hattr)
  have hcreate : store.createAttribute ⟨permission, declared.key, declared.kind, declared.valid⟩ =
      (.error (.keyless store.nextId permission), store.advance) := by
    simp only [createAttribute, ensureFreeKey_of_new hpermission hsound hnew, Attribute.make?, hkey,
      if_true]
  rw [enrolAttribute, hstored]
  exact Fetch.bind_of_error hcreate

end Attributes

/-- Whether a program ends as the keys have it: it succeeds and no key is blank, or it fails for
want of a key. -/
def EndsAsKeyed {α : Type} (keyed : Prop) (result : Except Fault α) : Prop :=
  (∃ a, result = .ok a) ∧ keyed ∨
    (∃ id permission, result = .error (.keyless id permission)) ∧ ¬keyed

theorem EndsAsKeyed.congr {α : Type} {keyed keyed' : Prop} {result : Except Fault α}
    (h : EndsAsKeyed keyed result) (hiff : keyed ↔ keyed') : EndsAsKeyed keyed' result :=
  h.imp (And.imp_right hiff.mp) (And.imp_right (mt hiff.mpr))

/-- **The loop over the declared attributes fails only for want of a key.** -/
theorem enrolAttributes_ends (hsound : store.Sound) (hkeys : store.NoneKeyless)
    (hdistinct : items.Pairwise fun a b => (a.1, a.2.key) ≠ (b.1, b.2.key))
    (hfinds : Finds stored items store) (hpermissions : ∀ item ∈ items, item.1 ∈ store.permissions)
    (hkinds : ∀ item ∈ items, ∀ valid, item.2.valid = some valid → valid.kind = item.2.kind)
    (hroom : (enrolAttributes (MemoryStore.source limit) stored report items store).2.next ≤
      UInt64.size) :
    EndsAsKeyed (∀ item ∈ items, isBlank item.2.key = false)
      (enrolAttributes (MemoryStore.source limit) stored report items store).1 := by
  induction items generalizing report store with
  | nil => exact Or.inl ⟨⟨report, rfl⟩, nofun⟩
  | cons item items ih =>
    obtain ⟨permission, declared⟩ := item
    rw [List.pairwise_cons] at hdistinct
    rw [List.forall_mem_cons] at hpermissions hkinds
    obtain ⟨hfind, hfinds⟩ := List.forall_mem_cons.mp hfinds
    cases hkey : isBlank declared.key with
    | true =>
      have hfirst :=
        enrolAttribute_of_blank limit hsound hpermissions.1 hfind hkeys hkey report
      have hrun : enrolAttributes (MemoryStore.source limit) stored report
          ((permission, declared) :: items) store = _ := Fetch.bind_of_error hfirst
      rw [hrun]
      refine Or.inr ⟨⟨_, _, rfl⟩, fun hall => ?_⟩
      rw [hall _ List.mem_cons_self] at hkey
      cases hkey
    | false =>
      obtain ⟨report₁, between, hfirst⟩ :=
        exists_enrolAttribute limit hsound hpermissions.1 hfind hkinds.1 hkey report
      have hrun : enrolAttributes (MemoryStore.source limit) stored report
          ((permission, declared) :: items) store =
            enrolAttributes (MemoryStore.source limit) stored report₁ items between :=
        Fetch.bind_of_ok hfirst
      rw [hrun] at hroom ⊢
      have hevolves := (respects_evolves limit).enrolAttributes (evolves_fetch limit) stored report₁
        items between
      have hbetween := Nat.le_trans hevolves.next_le hroom
      obtain ⟨id, hfiles, -⟩ := enrolAttribute_ok hsound hfind hfirst hbetween
      have hsound' : between.Sound :=
        (evolves_of_run ((respects_evolves limit).enrolAttribute (evolves_fetch limit) stored report
          permission declared) hfirst).sound hsound hbetween
      have hreaches := (respects_reaches limit).enrolAttribute (reaches_fetch limit) stored report
        permission declared store
      rw [hfirst] at hreaches
      have hkeys' : between.NoneKeyless := hreaches.noneKeyless hkeys
      have hfinds' : Finds stored items between := by
        intro item hitem attr
        rw [hfinds item hitem attr, hfiles.keyed_iff (hdistinct.1 item hitem)]
      have hpermissions' : ∀ item ∈ items, item.1 ∈ between.permissions := by
        rw [hfiles.frame]
        exact hpermissions.2
      refine (ih hsound' hkeys' hdistinct.2 hfinds' hpermissions' hkinds.2 hroom).congr ?_
      rw [List.forall_mem_cons, hkey, eq_self, true_and]

/-! ## Whole enrolments -/

/-- After the permissions have been created, the attributes are enrolled. -/
theorem enrol_of_created {created : Nat}
    (hcreate : createPermissions (MemoryStore.source limit) (guardsOf store) 0 registry.definitions
      store = (.ok (guards, created), between)) :
    (MemoryStore.source limit).enrol registry store =
      enrolAttributes (MemoryStore.source limit) (attributesOf between)
        { createdPermissions := created, undeclared := store.undeclared registry }
        (declaredAttributes guards registry.definitions) between :=
  (Fetch.bind_of_ok rfl).trans ((Fetch.bind_of_ok hcreate).trans (Fetch.bind_of_ok rfl))

/-- If a permission cannot be created, that is the end of an enrolment. -/
theorem enrol_of_fault {fault : Fault}
    (hcreate : createPermissions (MemoryStore.source limit) (guardsOf store) 0 registry.definitions
      store = (.error fault, between)) :
    (MemoryStore.source limit).enrol registry store = (.error fault, between) :=
  (Fetch.bind_of_ok rfl).trans (Fetch.bind_of_error hcreate)

/-- No declared attribute has a blank key if none of those that are enrolled has one. -/
theorem noneKeyless_iff (hlead : Lead guards between)
    (hadds : Adds registry.definitions store between) :
    (∀ item ∈ declaredAttributes guards registry.definitions, isBlank item.2.key = false) ↔
      registry.NoneKeyless := by
  constructor
  · intro hall definition hdefinition declared hdeclared
    obtain ⟨permission, hguard⟩ := hadds.there definition hdefinition
    exact hall (permission, declared) (hlead.mem_declaredAttributes_iff.mpr
      ⟨definition, hdefinition, hguard, hdeclared⟩)
  · intro hall item hitem
    obtain ⟨definition, hdefinition, -, hdeclared⟩ := hlead.mem_declaredAttributes_iff.mp hitem
    exact hall definition hdefinition item.2 hdeclared

/-- **An enrolment fails only for want of a key.** -/
theorem enrol_ends (hregistry : registry.Sound) (hsound : store.Sound) (hkeys : store.NoneKeyless)
    (hroom : ((MemoryStore.source limit).enrol registry store).2.next ≤ UInt64.size) :
    EndsAsKeyed registry.NoneKeyless ((MemoryStore.source limit).enrol registry store).1 := by
  have hlead := lead_guardsOf hsound
  have hguarded : ∀ definition ∈ registry.definitions, definition.guard.isEmpty = false :=
    fun definition hdefinition => (hregistry.definition definition hdefinition).guarded
  rcases hcreate : createPermissions (MemoryStore.source limit) (guardsOf store) 0
    registry.definitions store with ⟨fault | ⟨guards, created⟩, between⟩
  · -- nothing stands in the way of creating permissions
    rw [enrol_of_fault limit hcreate] at hroom
    obtain ⟨_, _, hok⟩ := exists_createPermissions limit hsound hlead hguarded 0
      (hcreate.symm ▸ hroom)
    rw [hcreate] at hok
    cases hok
  · rw [enrol_of_created limit hcreate] at hroom ⊢
    have hfirst := evolves_of_run
      ((respects_evolves limit).createPermissions (evolves_fetch limit) _ _ _) hcreate
    have hsecond := (respects_evolves limit).enrolAttributes (evolves_fetch limit)
      (attributesOf between)
      { createdPermissions := created, undeclared := store.undeclared registry }
      (declaredAttributes guards registry.definitions) between
    have hbetween := Nat.le_trans hsecond.next_le hroom
    have hsound' := hfirst.sound hsound hbetween
    have hreaches := (respects_reaches limit).createPermissions (reaches_fetch limit)
      (guardsOf store) 0 registry.definitions store
    rw [hcreate] at hreaches
    obtain ⟨hlead', hadds, -⟩ := createPermissions_ok hsound hlead hcreate hbetween
    refine (enrolAttributes_ends limit hsound' (hreaches.noneKeyless hkeys)
      (distinct_declaredAttributes hregistry hlead') (finds_attributesOf hsound' _) ?_ ?_
      hroom).congr (noneKeyless_iff hlead' hadds)
    · intro item hitem
      obtain ⟨_, -, ⟨row, hrow, -⟩, -⟩ := hlead'.mem_declaredAttributes_iff.mp hitem
      exact mem_iff_exists.mpr ⟨row, hrow⟩
    · intro item hitem
      obtain ⟨definition, hdefinition, -, hdeclared⟩ := hlead'.mem_declaredAttributes_iff.mp hitem
      exact (hregistry.definition definition hdefinition).valid_kind item.2 hdeclared

end Enrolment

namespace Session

/-- **What a registry accepts can be enrolled, but for blank keys.**  An enrolment over the store of
any session succeeds if and only if no declared attribute has a blank key, and the only fault it can
end with is the one that says so.  The store may not have run out of numbers. -/
theorem enrols_iff_noneKeyless (limit : Duration) (steps : List Step) {registry : Registry}
    (hbuilt : registry.Built)
    (hroom : ((MemoryStore.source limit).enrol registry (reached limit steps).store).2.next ≤
      UInt64.size) :
    ((∃ report, ((MemoryStore.source limit).enrol registry (reached limit steps).store).1 =
        .ok report) ↔ registry.NoneKeyless) ∧
      ∀ fault, ((MemoryStore.source limit).enrol registry (reached limit steps).store).1 =
        .error fault → ∃ id permission, fault = .keyless id permission := by
  have hevolves := (MemoryStore.respects_evolves limit).enrol (MemoryStore.evolves_fetch limit)
    registry (reached limit steps).store
  have hsound := (consistent_reached (Nat.le_trans hevolves.next_le hroom)).sound
  have hends := Enrolment.enrol_ends limit hbuilt.sound hsound (noneKeyless_reached limit steps)
    hroom
  rcases hends with ⟨⟨report, hok⟩, hkeyed⟩ | ⟨⟨id, permission, hfault⟩, hkeyed⟩
  · rw [hok]
    exact ⟨⟨fun _ => hkeyed, fun _ => ⟨report, rfl⟩⟩, nofun⟩
  · rw [hfault]
    refine ⟨⟨nofun, fun hall => absurd hall hkeyed⟩, fun fault heq => ?_⟩
    cases heq
    exact ⟨id, permission, rfl⟩

/-- A permission whose attribute is declared with a blank key. -/
def unkeyed : Registry where
  definitions :=
    [{ category := "citizens", name := "List"
       attributes := [{ key := " ", kind := .stringList }] }]

/-- A registry accepts a blank key; when it is enrolled the permission is created, and then the
store refuses the attribute. -/
theorem unkeyed_cannot_be_enrolled :
    let enrolled := (MemoryStore.source 0).enrol unkeyed (reached 0 []).store
    unkeyed.Built ∧ enrolled.2.next ≤ UInt64.size ∧ ¬unkeyed.NoneKeyless ∧
      enrolled.1 = .error (.keyless ⟨2⟩ ⟨1⟩) ∧ enrolled.2.permissions.size = 1 := by
  intro enrolled
  have hbuilt : unkeyed.Built := by
    have hregister : Registry.register {} unkeyed.definitions[0] = .ok unkeyed := by
      decide +kernel
    exact .register .empty hregister
  have hroom : enrolled.2.next ≤ UInt64.size := by decide +kernel
  have hfault : enrolled.1 = .error (.keyless ⟨2⟩ ⟨1⟩) := by decide +kernel
  have hsize : enrolled.2.permissions.size = 1 := by decide +kernel
  refine ⟨hbuilt, hroom, fun hkeyed => ?_, hfault, hsize⟩
  obtain ⟨report, hreport⟩ := (enrols_iff_noneKeyless 0 [] hbuilt hroom).1.mpr hkeyed
  rw [hfault] at hreport
  cases hreport

end Session

end GradedAccess
