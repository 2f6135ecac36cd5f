import GradedAccess.Store.Memory

/-!
# Operations of the store in memory

Everything that can happen to a store in memory, as one type.  A run of a store is a list of
operations, and `afterAll` is the store after it; whether single operations are refused does not
matter to whoever only looks at the rows.

For each operation that can be refused there is one law that says when it is carried out and what
the store is then.  Statements about all operations go by these laws and do not unfold the
operations again.
-/

namespace GradedAccess

open Std (ExtTreeMap LawfulEqOrd)

/-- Something that is done to a store. -/
inductive Operation where
  | createRole (job : String) (grade : Grade)
  | deleteRole (role : RoleId)
  | setGrant (role : RoleId) (permission : PermissionId) (value : Option Bool)
  | setValue (role : RoleId) (attr : AttributeId) (value : Option AttributeValue)
  | removeValue (role : RoleId) (attr : AttributeId)
  | setCeiling (job : String) (attr : AttributeId) (most : Option AttributeValue)
  | removeCeiling (job : String) (attr : AttributeId)
  | createPermission (new : NewPermission)
  | createAttribute (new : NewAttribute)
  | redefine (id : AttributeId) (kind : AttributeKind) (valid : Option AttributeValue)
  deriving DecidableEq

namespace MemoryStore

variable {store : MemoryStore} {role : RoleId} {permission : PermissionId} {attr : AttributeId}
variable {job : String} {grade : Grade}

/-- The store after an operation, whether or not it was refused. -/
def after (store : MemoryStore) : Operation → MemoryStore
  | .createRole job grade => (store.createRole job grade).2
  | .deleteRole role => (store.deleteRole role).2
  | .setGrant role permission value => (store.setGrant role permission value).2
  | .setValue role attr value => (store.setValue role attr value).2
  | .removeValue role attr => store.removeValue role attr
  | .setCeiling job attr most => (store.setCeiling job attr most).2
  | .removeCeiling job attr => store.removeCeiling job attr
  | .createPermission new => (store.createPermission new).2
  | .createAttribute new => (store.createAttribute new).2
  | .redefine id kind valid => (store.redefine id kind valid).2

/-- The store after some operations, one after another. -/
def afterAll (store : MemoryStore) (ops : List Operation) : MemoryStore := ops.foldl after store

@[simp] theorem afterAll_nil (store : MemoryStore) : store.afterAll [] = store := rfl

@[simp] theorem afterAll_cons (store : MemoryStore) (op : Operation) (ops : List Operation) :
    store.afterAll (op :: ops) = (store.after op).afterAll ops := rfl

theorem afterAll_append (store : MemoryStore) (ops ops' : List Operation) :
    store.afterAll (ops ++ ops') = (store.afterAll ops).afterAll ops' :=
  List.foldl_append

/-! ## What forbids an operation -/

theorem ensureRole_eq_ok_iff : store.ensureRole role = .ok () ↔ role ∈ store.roles := by
  rw [ensureRole, ExtTreeMap.mem_iff_contains]
  by_cases h : store.roles.contains role <;> simp [h]

theorem ensurePermission_eq_ok_iff :
    store.ensurePermission permission = .ok () ↔ permission ∈ store.permissions := by
  rw [ensurePermission, ExtTreeMap.mem_iff_contains]
  by_cases h : store.permissions.contains permission <;> simp [h]

theorem ensureAttribute_eq_ok_iff :
    store.ensureAttribute attr = .ok () ↔ attr ∈ store.attributes := by
  rw [ensureAttribute, ExtTreeMap.mem_iff_contains]
  by_cases h : store.attributes.contains attr <;> simp [h]

/-- One thing that must be allowed and then another are both allowed. -/
theorem allowed_bind_iff {first second : Except Fault Unit} :
    (do first; second) = .ok () ↔ first = .ok () ∧ second = .ok () := by
  cases first with
  | error fault => exact ⟨nofun, fun h => nomatch h.1⟩
  | ok _ => exact ⟨fun h => ⟨rfl, h⟩, fun h => h.2⟩

/-- A guarded change happens, or nothing does. -/
theorem guarded_cases (store : MemoryStore) (allowed : Except Fault Unit)
    (changed : MemoryStore) :
    (store.guarded allowed changed).2 = store ∨
      allowed = .ok () ∧ (store.guarded allowed changed).2 = changed := by
  cases allowed with
  | error fault => exact Or.inl rfl
  | ok _ => exact Or.inr ⟨rfl, rfl⟩

/-! ## What an operation does -/

/-- A role is created in a slot that no role has. -/
theorem createRole_cases (store : MemoryStore) (job : String) (grade : Grade) :
    store.after (.createRole job grade) = store ∨
      (∀ (id : RoleId) (row : Role), store.roles[id]? = some row →
          ¬(row.job = job ∧ row.grade = grade)) ∧
        store.after (.createRole job grade) =
          { store.advance with
            roles := store.roles.insert store.nextId ⟨store.nextId, job, grade⟩ } := by
  rw [after, createRole]
  split
  · exact Or.inl rfl
  · next h =>
    refine Or.inr ⟨fun id row hrow hslot => h ?_, rfl⟩
    rw [List.any_eq_true]
    exact ⟨(id, row), ExtTreeMap.mem_toList_iff_getElem?_eq_some.mpr hrow, by simp [hslot]⟩

/-- A role is deleted if it exists. -/
theorem deleteRole_cases (store : MemoryStore) (role : RoleId) :
    store.after (.deleteRole role) = store ∨
      role ∈ store.roles ∧
        store.after (.deleteRole role) = { store with
          roles := store.roles.erase role
          grants := store.grants.dropRow role
          values := store.values.dropRow role } := by
  refine (guarded_cases _ _ _).imp id fun ⟨hallowed, h⟩ => ⟨?_, h⟩
  exact ensureRole_eq_ok_iff.mp hallowed

/-- A grant is set or taken back for a role and a permission that exist. -/
theorem setGrant_cases (store : MemoryStore) (role : RoleId) (permission : PermissionId)
    (value : Option Bool) :
    store.after (.setGrant role permission value) = store ∨
      (role ∈ store.roles ∧ permission ∈ store.permissions) ∧
        store.after (.setGrant role permission value) = { store with
          grants := match value with
            | some value => store.grants.insert (role, permission) value
            | none => store.grants.erase (role, permission) } := by
  refine (guarded_cases _ _ _).imp id fun ⟨hallowed, h⟩ => ⟨?_, h⟩
  rwa [allowed_bind_iff, ensureRole_eq_ok_iff, ensurePermission_eq_ok_iff] at hallowed

/-- A value is set for a role and an attribute that exist. -/
theorem setValue_cases (store : MemoryStore) (role : RoleId) (attr : AttributeId)
    (value : Option AttributeValue) :
    store.after (.setValue role attr value) = store ∨
      (role ∈ store.roles ∧ attr ∈ store.attributes) ∧
        store.after (.setValue role attr value) =
          { store with values := store.values.insert (role, attr) value } := by
  refine (guarded_cases _ _ _).imp id fun ⟨hallowed, h⟩ => ⟨?_, h⟩
  rwa [allowed_bind_iff, ensureRole_eq_ok_iff, ensureAttribute_eq_ok_iff] at hallowed

/-- A ceiling is set for an attribute that exists. -/
theorem setCeiling_cases (store : MemoryStore) (job : String) (attr : AttributeId)
    (most : Option AttributeValue) :
    store.after (.setCeiling job attr most) = store ∨
      attr ∈ store.attributes ∧
        store.after (.setCeiling job attr most) =
          { store with ceilings := store.ceilings.insert (job, attr) most } := by
  refine (guarded_cases _ _ _).imp id fun ⟨hallowed, h⟩ => ⟨?_, h⟩
  exact ensureAttribute_eq_ok_iff.mp hallowed

/-- A permission that is refused takes a number all the same; one that is created has a guard that
no permission has. -/
theorem createPermission_cases (store : MemoryStore) (new : NewPermission) :
    store.after (.createPermission new) = store.advance ∨
      ∃ row : Permission, row.id = store.nextId ∧
        (∀ (id : PermissionId) (other : Permission), store.permissions[id]? = some other →
          other.guard ≠ row.guard) ∧
        store.after (.createPermission new) =
          { store.advance with permissions := store.permissions.insert store.nextId row } := by
  rw [after, createPermission]
  cases hmake : Permission.make? store.nextId new.category new.name new.order with
  | error fault => exact Or.inl rfl
  | ok row =>
    have hid : row.id = store.nextId := by
      rw [Permission.make?] at hmake
      split at hmake
      · cases hmake
      · rw [← Except.ok.inj hmake]
    dsimp only
    split
    · exact Or.inl rfl
    · next h =>
      refine Or.inr ⟨row, hid, fun id other hother hguard => h ?_, by rw [hid]⟩
      rw [List.any_eq_true]
      exact ⟨(id, other), ExtTreeMap.mem_toList_iff_getElem?_eq_some.mpr hother, by simp [hguard]⟩

/-- What `make?` gives is of the permission, the key and the kind that were asked for. -/
theorem make?_eq_ok {id : AttributeId} {key : String} {kind : AttributeKind}
    {valid : Option AttributeValue} {row : Attribute}
    (h : Attribute.make? id permission key kind valid = .ok row) :
    row.id = id ∧ row.permission = permission ∧ row.key = key ∧ row.valid.kind = row.kind := by
  rw [Attribute.make?] at h
  split at h
  · cases h
  · cases valid with
    | none =>
      obtain rfl := Except.ok.inj h
      exact ⟨rfl, rfl, rfl, AttributeValue.kind_empty kind⟩
    | some value =>
      rw [AttributeValue.orDefault, AttributeValue.ensureKind] at h
      split at h
      · next hkind =>
        obtain rfl := Except.ok.inj h
        exact ⟨rfl, rfl, rfl, hkind⟩
      · cases h

/-- An attribute that is created belongs to a permission that exists, has a key that no attribute
of the permission has, and has valid values of its kind. -/
theorem createAttribute_cases (store : MemoryStore) (new : NewAttribute) :
    store.after (.createAttribute new) = store ∨
      store.after (.createAttribute new) = store.advance ∨
      ∃ row : Attribute, row.id = store.nextId ∧ row.permission ∈ store.permissions ∧
        row.valid.kind = row.kind ∧
        (∀ (id : AttributeId) (other : Attribute), store.attributes[id]? = some other →
          ¬(other.permission = row.permission ∧ other.key = row.key)) ∧
        store.after (.createAttribute new) =
          { store.advance with attributes := store.attributes.insert store.nextId row } := by
  rw [after, createAttribute]
  cases hfree : store.ensureFreeKey new.permission new.key with
  | error fault => exact Or.inl rfl
  | ok _ =>
    dsimp only
    cases hmake : Attribute.make? store.nextId new.permission new.key new.kind new.valid with
    | error fault => exact Or.inr (Or.inl rfl)
    | ok row =>
      obtain ⟨hid, hpermission, hkey, hkind⟩ := make?_eq_ok hmake
      rw [ensureFreeKey, allowed_bind_iff, ensurePermission_eq_ok_iff] at hfree
      refine Or.inr (Or.inr ⟨row, hid, hpermission ▸ hfree.1, hkind, ?_, ?_⟩)
      · intro id other hother hsame
        rw [hpermission, hkey] at hsame
        have hany : (store.attributes.toList.any fun entry =>
            entry.2.permission = new.permission && entry.2.key = new.key) = true := by
          rw [List.any_eq_true]
          exact ⟨(id, other), ExtTreeMap.mem_toList_iff_getElem?_eq_some.mpr hother,
            by simp [hsame]⟩
        rw [if_pos hany] at hfree
        cases hfree.2
      · rw [← hid]

/-- An attribute that is redefined keeps its permission and its key. -/
theorem redefine_cases (store : MemoryStore) (id : AttributeId) (kind : AttributeKind)
    (valid : Option AttributeValue) :
    store.after (.redefine id kind valid) = store ∨
      ∃ earlier row : Attribute, store.attributes[id]? = some earlier ∧ row.id = id ∧
        row.permission = earlier.permission ∧ row.key = earlier.key ∧ row.valid.kind = row.kind ∧
        store.after (.redefine id kind valid) =
          { store with attributes := store.attributes.insert id row } := by
  rw [after, redefine]
  cases hearlier : store.attributes[id]? with
  | none => exact Or.inl rfl
  | some earlier =>
    dsimp only
    cases hmake : Attribute.make? id earlier.permission earlier.key kind valid with
    | error fault => exact Or.inl rfl
    | ok row =>
      obtain ⟨hid, hpermission, hkey, hkind⟩ := make?_eq_ok hmake
      exact Or.inr ⟨earlier, row, rfl, hid, hpermission, hkey, hkind, rfl⟩

/-! ## The counter -/

/-- The counter never goes back. -/
theorem next_le_after (store : MemoryStore) (op : Operation) :
    store.next ≤ (store.after op).next := by
  cases op with
  | createRole job grade =>
    rcases createRole_cases store job grade with h | ⟨-, h⟩ <;> simp [h, advance]
  | deleteRole role => rcases deleteRole_cases store role with h | ⟨-, h⟩ <;> simp [h]
  | setGrant role permission value =>
    rcases setGrant_cases store role permission value with h | ⟨-, h⟩ <;> simp [h]
  | setValue role attr value =>
    rcases setValue_cases store role attr value with h | ⟨-, h⟩ <;> simp [h]
  | removeValue role attr => exact Nat.le_refl _
  | setCeiling job attr most =>
    rcases setCeiling_cases store job attr most with h | ⟨-, h⟩ <;> simp [h]
  | removeCeiling job attr => exact Nat.le_refl _
  | createPermission new =>
    rcases createPermission_cases store new with h | ⟨row, -, -, h⟩ <;> simp [h, advance]
  | createAttribute new =>
    rcases createAttribute_cases store new with h | h | ⟨row, -, -, -, -, h⟩ <;> simp [h, advance]
  | redefine id kind valid =>
    rcases redefine_cases store id kind valid with h | ⟨_, row, -, -, -, -, -, h⟩ <;> simp [h]

theorem next_le_afterAll (store : MemoryStore) (ops : List Operation) :
    store.next ≤ (store.afterAll ops).next := by
  induction ops generalizing store with
  | nil => exact Nat.le_refl _
  | cons op ops ih => exact Nat.le_trans (store.next_le_after op) (ih (store.after op))

end MemoryStore

end GradedAccess
