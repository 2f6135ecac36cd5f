import GradedAccess.Proofs.Store.Operation
import GradedAccess.Proofs.Tables

/-!
# Integrity of the store in memory

The rules the store in memory keeps, as one structure.  Rows are filed under their own numbers; a
guard, a key of a permission and a slot of a role are each used once; a row refers to rows that
exist; the valid values of an attribute are of its kind.  All of this holds of the empty store and
survives every operation (`Sound.afterAll`).

Two of the rules need the counter not to have gone round: a number that is given out a second time
would replace a row, and grants of the earlier role would then belong to the new one.  So the
rules include that every number in use is below the counter, and they are kept as long as fewer
than `2 ^ 64` numbers have been given out.
-/

namespace GradedAccess

open Std (ExtTreeMap LawfulEqOrd)

namespace MemoryStore

variable {store : MemoryStore}

/-- The rules a store in memory keeps. -/
structure Sound (store : MemoryStore) : Prop where
  permission_id : ∀ ⦃id : PermissionId⦄ ⦃row : Permission⦄, store.permissions[id]? = some row →
    row.id = id
  attribute_id : ∀ ⦃id : AttributeId⦄ ⦃row : Attribute⦄, store.attributes[id]? = some row →
    row.id = id
  role_id : ∀ ⦃id : RoleId⦄ ⦃row : Role⦄, store.roles[id]? = some row → row.id = id
  /-- Two permissions do not share a guard. -/
  guard_once : ∀ ⦃id id' : PermissionId⦄ ⦃row row' : Permission⦄,
    store.permissions[id]? = some row → store.permissions[id']? = some row' →
      row.guard = row'.guard → id = id'
  /-- Two attributes of a permission do not share a key. -/
  key_once : ∀ ⦃id id' : AttributeId⦄ ⦃row row' : Attribute⦄,
    store.attributes[id]? = some row → store.attributes[id']? = some row' →
      row.permission = row'.permission ∧ row.key = row'.key → id = id'
  /-- Two roles do not share a slot. -/
  slot_once : ∀ ⦃id id' : RoleId⦄ ⦃row row' : Role⦄,
    store.roles[id]? = some row → store.roles[id']? = some row' →
      row.job = row'.job ∧ row.grade = row'.grade → id = id'
  /-- Valid values are of the kind of their attribute. -/
  valid_kind : ∀ ⦃id : AttributeId⦄ ⦃row : Attribute⦄, store.attributes[id]? = some row →
    row.valid.kind = row.kind
  attribute_known : ∀ ⦃id : AttributeId⦄ ⦃row : Attribute⦄, store.attributes[id]? = some row →
    row.permission ∈ store.permissions
  grant_known : ∀ ⦃role : RoleId⦄ ⦃permission : PermissionId⦄,
    (role, permission) ∈ store.grants → role ∈ store.roles ∧ permission ∈ store.permissions
  value_known : ∀ ⦃role : RoleId⦄ ⦃attr : AttributeId⦄,
    (role, attr) ∈ store.values → role ∈ store.roles ∧ attr ∈ store.attributes
  ceiling_known : ∀ ⦃job : String⦄ ⦃attr : AttributeId⦄,
    (job, attr) ∈ store.ceilings → attr ∈ store.attributes
  /-- Numbers in use have been given out. -/
  permission_given : ∀ ⦃id : PermissionId⦄, id ∈ store.permissions → id.num.toNat < store.next
  attribute_given : ∀ ⦃id : AttributeId⦄, id ∈ store.attributes → id.num.toNat < store.next
  role_given : ∀ ⦃id : RoleId⦄, id ∈ store.roles → id.num.toNat < store.next

/-- The empty store keeps the rules. -/
theorem sound_empty : ({} : MemoryStore).Sound := by
  constructor <;> simp

/-- Counting on breaks no rule. -/
theorem Sound.advance (h : store.Sound) : store.advance.Sound :=
  { h with
    permission_given := fun _ hmem => Nat.lt_succ_of_lt (h.permission_given hmem)
    attribute_given := fun _ hmem => Nat.lt_succ_of_lt (h.attribute_given hmem)
    role_given := fun _ hmem => Nat.lt_succ_of_lt (h.role_given hmem) }

/-- Nothing is granted to a role that is not there. -/
theorem Sound.grant_eq_none (h : store.Sound) {role : RoleId} (hnot : role ∉ store.roles)
    (permission : PermissionId) : store.grants[(role, permission)]? = none :=
  ExtTreeMap.getElem?_eq_none fun hmem => hnot (h.grant_known hmem).1

/-- A role that is not there has no values. -/
theorem Sound.value_eq_none (h : store.Sound) {role : RoleId} (hnot : role ∉ store.roles)
    (attr : AttributeId) : store.values[(role, attr)]? = none :=
  ExtTreeMap.getElem?_eq_none fun hmem => hnot (h.value_known hmem).1

/-! ## New numbers -/

/-- The number a row gets is what the counter shows, if the counter has not gone round. -/
theorem toNat_nextId {entity : Entity} (hroom : store.next < UInt64.size) :
    (store.nextId : Id entity).num.toNat = store.next := by
  rw [nextId, UInt64.toNat_ofNat', Nat.mod_eq_of_lt hroom]

/-- The number a row gets is not in a table of rows that have all been given numbers. -/
theorem nextId_notMem {entity : Entity} {ρ : Type} {table : ExtTreeMap (Id entity) ρ}
    (hgiven : ∀ ⦃id : Id entity⦄, id ∈ table → id.num.toNat < store.next)
    (hroom : store.next < UInt64.size) : store.nextId ∉ table := by
  intro hmem
  have hlt := hgiven hmem
  rw [toNat_nextId hroom] at hlt
  exact Nat.lt_irrefl _ hlt

/-! ## What the operations keep -/

theorem Sound.createRole (h : store.Sound) (hroom : store.next < UInt64.size) {job : String}
    {grade : Grade} (hfree : ∀ (id : RoleId) (row : Role), store.roles[id]? = some row →
      ¬(row.job = job ∧ row.grade = grade)) :
    Sound { store.advance with
      roles := store.roles.insert store.nextId ⟨store.nextId, job, grade⟩ } :=
  { h.advance with
    role_id := by
      intro id row hrow
      rcases getElem?_insert_cases hrow with ⟨rfl, rfl⟩ | ⟨-, hrow⟩
      · rfl
      · exact h.role_id hrow
    slot_once := by
      intro id id' row row' hrow hrow' hslot
      rcases getElem?_insert_cases hrow with ⟨rfl, rfl⟩ | ⟨-, hrow⟩
      · rcases getElem?_insert_cases hrow' with ⟨rfl, rfl⟩ | ⟨-, hrow'⟩
        · rfl
        · exact absurd ⟨hslot.1.symm, hslot.2.symm⟩ (hfree id' row' hrow')
      · rcases getElem?_insert_cases hrow' with ⟨rfl, rfl⟩ | ⟨-, hrow'⟩
        · exact absurd hslot (hfree id row hrow)
        · exact h.slot_once hrow hrow' hslot
    grant_known := by
      intro role permission hmem
      obtain ⟨hrole, hpermission⟩ := h.grant_known hmem
      exact ⟨ExtTreeMap.mem_insert.mpr (Or.inr hrole), hpermission⟩
    value_known := by
      intro role attr hmem
      obtain ⟨hrole, hattr⟩ := h.value_known hmem
      exact ⟨ExtTreeMap.mem_insert.mpr (Or.inr hrole), hattr⟩
    role_given := by
      intro id hmem
      rcases mem_insert_cases hmem with rfl | hmem
      · rw [toNat_nextId hroom]
        exact Nat.lt_succ_self _
      · exact Nat.lt_succ_of_lt (h.role_given hmem) }

theorem Sound.deleteRole (h : store.Sound) (role : RoleId) :
    Sound { store with
      roles := store.roles.erase role
      grants := store.grants.dropRow role
      values := store.values.dropRow role } :=
  { h with
    role_id := fun id row hrow => h.role_id (getElem?_erase_cases hrow).2
    slot_once := fun id id' row row' hrow hrow' =>
      h.slot_once (getElem?_erase_cases hrow).2 (getElem?_erase_cases hrow').2
    grant_known := by
      intro role' permission hmem
      rw [PairTable.mem_dropRow_iff] at hmem
      obtain ⟨hrole, hpermission⟩ := h.grant_known hmem.2
      refine ⟨ExtTreeMap.mem_erase.mpr ⟨?_, hrole⟩, hpermission⟩
      rw [ne_eq, LawfulEqOrd.compare_eq_iff_eq]
      exact Ne.symm hmem.1
    value_known := by
      intro role' attr hmem
      rw [PairTable.mem_dropRow_iff] at hmem
      obtain ⟨hrole, hattr⟩ := h.value_known hmem.2
      refine ⟨ExtTreeMap.mem_erase.mpr ⟨?_, hrole⟩, hattr⟩
      rw [ne_eq, LawfulEqOrd.compare_eq_iff_eq]
      exact Ne.symm hmem.1
    role_given := fun id hmem => h.role_given (ExtTreeMap.mem_of_mem_erase hmem) }

theorem Sound.setGrant (h : store.Sound) {role : RoleId} {permission : PermissionId}
    (hknown : role ∈ store.roles ∧ permission ∈ store.permissions) (value : Option Bool) :
    Sound { store with
      grants := match value with
        | some value => store.grants.insert (role, permission) value
        | none => store.grants.erase (role, permission) } :=
  { h with
    grant_known := by
      intro role' permission' hmem
      cases value with
      | none => exact h.grant_known (ExtTreeMap.mem_of_mem_erase hmem)
      | some value =>
        rcases mem_insert_cases hmem with heq | hmem
        · obtain ⟨rfl, rfl⟩ := Prod.mk.inj heq
          exact hknown
        · exact h.grant_known hmem }

theorem Sound.setValue (h : store.Sound) {role : RoleId} {attr : AttributeId}
    (hknown : role ∈ store.roles ∧ attr ∈ store.attributes) (value : Option AttributeValue) :
    Sound { store with values := store.values.insert (role, attr) value } :=
  { h with
    value_known := by
      intro role' attr' hmem
      rcases mem_insert_cases hmem with heq | hmem
      · obtain ⟨rfl, rfl⟩ := Prod.mk.inj heq
        exact hknown
      · exact h.value_known hmem }

theorem Sound.removeValue (h : store.Sound) (role : RoleId) (attr : AttributeId) :
    (store.removeValue role attr).Sound :=
  { h with value_known := fun _ _ hmem => h.value_known (ExtTreeMap.mem_of_mem_erase hmem) }

theorem Sound.setCeiling (h : store.Sound) (job : String) {attr : AttributeId}
    (hknown : attr ∈ store.attributes) (most : Option AttributeValue) :
    Sound { store with ceilings := store.ceilings.insert (job, attr) most } :=
  { h with
    ceiling_known := by
      intro job' attr' hmem
      rcases mem_insert_cases hmem with heq | hmem
      · obtain ⟨rfl, rfl⟩ := Prod.mk.inj heq
        exact hknown
      · exact h.ceiling_known hmem }

theorem Sound.removeCeiling (h : store.Sound) (job : String) (attr : AttributeId) :
    (store.removeCeiling job attr).Sound :=
  { h with ceiling_known := fun _ _ hmem => h.ceiling_known (ExtTreeMap.mem_of_mem_erase hmem) }

theorem Sound.createPermission (h : store.Sound) (hroom : store.next < UInt64.size)
    {row : Permission} (hid : row.id = store.nextId)
    (hfree : ∀ (id : PermissionId) (other : Permission), store.permissions[id]? = some other →
      other.guard ≠ row.guard) :
    Sound { store.advance with permissions := store.permissions.insert store.nextId row } :=
  { h.advance with
    permission_id := by
      intro id row' hrow
      rcases getElem?_insert_cases hrow with ⟨rfl, rfl⟩ | ⟨-, hrow⟩
      · exact hid
      · exact h.permission_id hrow
    guard_once := by
      intro id id' first second hfirst hsecond hguard
      rcases getElem?_insert_cases hfirst with ⟨rfl, rfl⟩ | ⟨-, hbefore⟩
      · rcases getElem?_insert_cases hsecond with ⟨rfl, rfl⟩ | ⟨-, hsecond⟩
        · rfl
        · exact absurd hguard.symm (hfree id' second hsecond)
      · rcases getElem?_insert_cases hsecond with ⟨rfl, rfl⟩ | ⟨-, hsecond⟩
        · exact absurd hguard (hfree id first hbefore)
        · exact h.guard_once hbefore hsecond hguard
    attribute_known := fun _ _ hrow => ExtTreeMap.mem_insert.mpr (Or.inr (h.attribute_known hrow))
    grant_known := by
      intro role permission hmem
      obtain ⟨hrole, hpermission⟩ := h.grant_known hmem
      exact ⟨hrole, ExtTreeMap.mem_insert.mpr (Or.inr hpermission)⟩
    permission_given := by
      intro id hmem
      rcases mem_insert_cases hmem with rfl | hmem
      · rw [toNat_nextId hroom]
        exact Nat.lt_succ_self _
      · exact Nat.lt_succ_of_lt (h.permission_given hmem) }

/-- An attribute may be filed under any number that is not in use, or under its own one again, if
its key is not in use apart from that. -/
theorem Sound.fileAttribute (h : store.Sound) {id : AttributeId} {row : Attribute}
    (hid : row.id = id) (hgiven : id.num.toNat < store.next)
    (hpermission : row.permission ∈ store.permissions) (hkind : row.valid.kind = row.kind)
    (hfree : ∀ (id' : AttributeId) (other : Attribute), store.attributes[id']? = some other →
      other.permission = row.permission ∧ other.key = row.key → id' = id) :
    Sound { store with attributes := store.attributes.insert id row } :=
  { h with
    attribute_id := by
      intro id' row' hrow
      rcases getElem?_insert_cases hrow with ⟨rfl, rfl⟩ | ⟨-, hrow⟩
      · exact hid
      · exact h.attribute_id hrow
    key_once := by
      intro id₁ id₂ first second hfirst hsecond hkey
      rcases getElem?_insert_cases hfirst with ⟨rfl, rfl⟩ | ⟨-, hbefore⟩
      · rcases getElem?_insert_cases hsecond with ⟨rfl, rfl⟩ | ⟨-, hsecond⟩
        · rfl
        · exact (hfree id₂ second hsecond ⟨hkey.1.symm, hkey.2.symm⟩).symm
      · rcases getElem?_insert_cases hsecond with ⟨rfl, rfl⟩ | ⟨-, hsecond⟩
        · exact hfree id₁ first hbefore hkey
        · exact h.key_once hbefore hsecond hkey
    valid_kind := by
      intro id' row' hrow
      rcases getElem?_insert_cases hrow with ⟨rfl, rfl⟩ | ⟨-, hrow⟩
      · exact hkind
      · exact h.valid_kind hrow
    attribute_known := by
      intro id' row' hrow
      rcases getElem?_insert_cases hrow with ⟨rfl, rfl⟩ | ⟨-, hrow⟩
      · exact hpermission
      · exact h.attribute_known hrow
    value_known := by
      intro role attr hmem
      obtain ⟨hrole, hattr⟩ := h.value_known hmem
      exact ⟨hrole, ExtTreeMap.mem_insert.mpr (Or.inr hattr)⟩
    ceiling_known := fun _ _ hmem => ExtTreeMap.mem_insert.mpr (Or.inr (h.ceiling_known hmem))
    attribute_given := by
      intro id' hmem
      rcases mem_insert_cases hmem with rfl | hmem
      · exact hgiven
      · exact h.attribute_given hmem }

theorem Sound.redefine (h : store.Sound) {id : AttributeId} {earlier row : Attribute}
    (hearlier : store.attributes[id]? = some earlier) (hid : row.id = id)
    (hpermission : row.permission = earlier.permission) (hkey : row.key = earlier.key)
    (hkind : row.valid.kind = row.kind) :
    Sound { store with attributes := store.attributes.insert id row } := by
  refine h.fileAttribute hid ?_ (hpermission ▸ h.attribute_known hearlier) hkind ?_
  · exact h.attribute_given (mem_iff_exists.mpr ⟨earlier, hearlier⟩)
  · intro id' other hother hsame
    rw [hpermission, hkey] at hsame
    exact h.key_once hother hearlier hsame

/-- Every operation keeps the rules, as long as there are numbers left. -/
theorem Sound.after (h : store.Sound) {op : Operation}
    (hroom : (store.after op).next ≤ UInt64.size) :
    (store.after op).Sound := by
  cases op with
  | createRole job grade =>
    rcases createRole_cases store job grade with heq | ⟨hfree, heq⟩ <;> rw [heq] at hroom ⊢
    · exact h
    · exact h.createRole hroom hfree
  | deleteRole role =>
    rcases deleteRole_cases store role with heq | ⟨-, heq⟩ <;> rw [heq]
    · exact h
    · exact h.deleteRole role
  | setGrant role permission value =>
    rcases setGrant_cases store role permission value with heq | ⟨hknown, heq⟩ <;> rw [heq]
    · exact h
    · exact h.setGrant hknown value
  | setValue role attr value =>
    rcases setValue_cases store role attr value with heq | ⟨hknown, heq⟩ <;> rw [heq]
    · exact h
    · exact h.setValue hknown value
  | removeValue role attr => exact h.removeValue role attr
  | setCeiling job attr most =>
    rcases setCeiling_cases store job attr most with heq | ⟨hknown, heq⟩ <;> rw [heq]
    · exact h
    · exact h.setCeiling job hknown most
  | removeCeiling job attr => exact h.removeCeiling job attr
  | createPermission new =>
    rcases createPermission_cases store new with heq | ⟨row, hid, hfree, heq⟩ <;>
      rw [heq] at hroom ⊢
    · exact h.advance
    · exact h.createPermission hroom hid hfree
  | createAttribute new =>
    rcases createAttribute_cases store new with heq | heq |
      ⟨row, hid, hpermission, hkind, hfree, heq⟩ <;> rw [heq] at hroom ⊢
    · exact h
    · exact h.advance
    · refine h.advance.fileAttribute hid ?_ hpermission hkind fun id' other hother hsame =>
        absurd hsame (hfree id' other hother)
      rw [toNat_nextId hroom]
      exact Nat.lt_succ_self _
  | redefine id kind valid =>
    rcases redefine_cases store id kind valid with heq |
      ⟨earlier, row, hearlier, hid, hpermission, hkey, hkind, heq⟩ <;> rw [heq]
    · exact h
    · exact h.redefine hearlier hid hpermission hkey hkind

/-- The store keeps the rules through every run of operations, as long as there are numbers
left. -/
theorem Sound.afterAll (h : store.Sound) {ops : List Operation}
    (hroom : (store.afterAll ops).next ≤ UInt64.size) : (store.afterAll ops).Sound := by
  induction ops generalizing store with
  | nil => exact h
  | cons op ops ih =>
    rw [afterAll_cons] at hroom ⊢
    exact ih (h.after (Nat.le_trans (next_le_afterAll _ ops) hroom)) hroom

end MemoryStore

end GradedAccess
