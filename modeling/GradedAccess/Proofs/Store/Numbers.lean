import GradedAccess.Proofs.Store.Listing
import Mathlib.Data.List.Nodup

/-!
# One number, one row

Permissions, attributes and roles of a store in memory take their numbers from one counter.  So a
number names at most one row, and not just one of each kind (`nodup_numbers`).

Within a kind this follows from rows being filed under their own numbers.  Between kinds it is a
rule of its own, `Apart`.  It is kept because a new row gets a number above every number that has
been given out, which is what `Sound` records of all three tables, and because no other operation
files a row under a number that was not in use.  As with the other rules, the counter may not have
gone round.
-/

namespace GradedAccess

open Std (ExtTreeMap)

/-! ## Two tables of rows -/

section Tables

variable {kind kind' : Entity} {ρ ρ' : Type} {table : ExtTreeMap (Id kind) ρ}
variable {table' : ExtTreeMap (Id kind') ρ'}

/-- Whether no row of a table has the number of a row of another table. -/
def NumbersApart (table : ExtTreeMap (Id kind) ρ) (table' : ExtTreeMap (Id kind') ρ') : Prop :=
  ∀ ⦃id : Id kind⦄ ⦃id' : Id kind'⦄, id ∈ table → id' ∈ table' → id.num ≠ id'.num

theorem NumbersApart.symm (h : NumbersApart table table') : NumbersApart table' table :=
  fun _ _ hmem hmem' => (h hmem' hmem).symm

/-- A row whose number is not in the other table may be filed. -/
theorem NumbersApart.insert (h : NumbersApart table table') {new : Id kind}
    (hnew : ∀ id' : Id kind', id' ∈ table' → new.num ≠ id'.num) (row : ρ) :
    NumbersApart (table.insert new row) table' := by
  intro id id' hmem hmem'
  rcases mem_insert_cases hmem with rfl | hmem
  · exact hnew id' hmem'
  · exact h hmem hmem'

/-- A row may be filed under a number its table has already. -/
theorem NumbersApart.replace (h : NumbersApart table table') {id : Id kind} (hid : id ∈ table)
    (row : ρ) : NumbersApart (table.insert id row) table' :=
  h.insert (fun _ hmem' => h hid hmem') row

theorem NumbersApart.erase (h : NumbersApart table table') (id : Id kind) :
    NumbersApart (table.erase id) table' :=
  fun _ _ hmem hmem' => h (ExtTreeMap.mem_of_mem_erase hmem) hmem'

end Tables

namespace MemoryStore

variable {store : MemoryStore}

/-- Whether no number is used for rows of two kinds. -/
structure Apart (store : MemoryStore) : Prop where
  permission_attribute : NumbersApart store.permissions store.attributes
  permission_role : NumbersApart store.permissions store.roles
  attribute_role : NumbersApart store.attributes store.roles

theorem apart_empty : ({} : MemoryStore).Apart := by
  constructor <;> simp [NumbersApart]

/-- Only the permissions, the attributes and the roles count. -/
theorem Apart.congr {store' : MemoryStore} (h : store.Apart)
    (hpermissions : store'.permissions = store.permissions)
    (hattributes : store'.attributes = store.attributes) (hroles : store'.roles = store.roles) :
    store'.Apart := by
  constructor <;> simp only [hpermissions, hattributes, hroles]
  · exact h.permission_attribute
  · exact h.permission_role
  · exact h.attribute_role

/-! ## What the operations keep -/

/-- The number of a new row, of whatever kind, is not the number of a row that is there. -/
theorem num_nextId_ne (kind : Entity) {kind' : Entity} {ρ : Type} {table : ExtTreeMap (Id kind') ρ}
    (hgiven : ∀ ⦃id : Id kind'⦄, id ∈ table → id.num.toNat < store.next)
    (hroom : store.next < UInt64.size) :
    ∀ id : Id kind', id ∈ table → (store.nextId : Id kind).num ≠ id.num := by
  intro id hmem heq
  have hlt := hgiven hmem
  rw [← heq, toNat_nextId hroom] at hlt
  exact Nat.lt_irrefl _ hlt

/-- No operation gives a row the number of a row of another kind, as long as there are numbers
left. -/
theorem Apart.after (h : store.Apart) (hsound : store.Sound) {op : Operation}
    (hroom : (store.after op).next ≤ UInt64.size) : (store.after op).Apart := by
  cases op with
  | createRole job grade =>
    rcases createRole_cases store job grade with heq | ⟨-, heq⟩ <;> rw [heq] at hroom ⊢
    · exact h
    · have hpermissions := num_nextId_ne .role hsound.permission_given hroom
      have hattributes := num_nextId_ne .role hsound.attribute_given hroom
      exact ⟨h.permission_attribute, (h.permission_role.symm.insert hpermissions _).symm,
        (h.attribute_role.symm.insert hattributes _).symm⟩
  | deleteRole role =>
    rcases deleteRole_cases store role with heq | ⟨-, heq⟩ <;> rw [heq]
    · exact h
    · exact ⟨h.permission_attribute, (h.permission_role.symm.erase role).symm,
        (h.attribute_role.symm.erase role).symm⟩
  | createPermission new =>
    rcases createPermission_cases store new with heq | ⟨row, -, -, heq⟩ <;> rw [heq] at hroom ⊢
    · exact h.congr rfl rfl rfl
    · have hattributes := num_nextId_ne .permission hsound.attribute_given hroom
      have hroles := num_nextId_ne .permission hsound.role_given hroom
      exact ⟨h.permission_attribute.insert hattributes _, h.permission_role.insert hroles _,
        h.attribute_role⟩
  | createAttribute new =>
    rcases createAttribute_cases store new with heq | heq | ⟨row, -, -, -, -, heq⟩ <;>
      rw [heq] at hroom ⊢
    · exact h
    · exact h.congr rfl rfl rfl
    · have hpermissions := num_nextId_ne .attribute hsound.permission_given hroom
      have hroles := num_nextId_ne .attribute hsound.role_given hroom
      exact ⟨(h.permission_attribute.symm.insert hpermissions _).symm, h.permission_role,
        h.attribute_role.insert hroles _⟩
  | redefine id kind valid =>
    rcases redefine_cases store id kind valid with heq |
      ⟨earlier, row, hearlier, -, -, -, -, heq⟩ <;> rw [heq]
    · exact h
    · have hid : id ∈ store.attributes := mem_iff_exists.mpr ⟨earlier, hearlier⟩
      exact ⟨(h.permission_attribute.symm.replace hid row).symm, h.permission_role,
        h.attribute_role.replace hid row⟩
  | setGrant role permission value =>
    rcases setGrant_cases store role permission value with heq | ⟨-, heq⟩ <;> rw [heq] <;>
      exact h.congr rfl rfl rfl
  | setValue role attr value =>
    rcases setValue_cases store role attr value with heq | ⟨-, heq⟩ <;> rw [heq] <;>
      exact h.congr rfl rfl rfl
  | setCeiling job attr most =>
    rcases setCeiling_cases store job attr most with heq | ⟨-, heq⟩ <;> rw [heq] <;>
      exact h.congr rfl rfl rfl
  | removeValue | removeCeiling => exact h.congr rfl rfl rfl

/-- Numbers stay apart through every run of operations, as long as there are numbers left. -/
theorem Apart.afterAll (h : store.Apart) (hsound : store.Sound) {ops : List Operation}
    (hroom : (store.afterAll ops).next ≤ UInt64.size) : (store.afterAll ops).Apart := by
  induction ops generalizing store with
  | nil => exact h
  | cons op ops ih =>
    rw [afterAll_cons] at hroom ⊢
    have hbefore := Nat.le_trans (next_le_afterAll _ ops) hroom
    exact ih (h.after hsound hbefore) (hsound.after hbefore) hroom

/-! ## All numbers of a store -/

/-- The numbers of the rows of a store, of whatever kind. -/
def numbers (store : MemoryStore) : List UInt64 :=
  store.permissions.values.map (·.id.num) ++ store.attributes.values.map (·.id.num) ++
    store.roles.values.map (·.id.num)

section Listed

variable {kind : Entity} {ρ : Type} {table : ExtTreeMap (Id kind) ρ}

/-- Rows that are filed under their own numbers are listed with distinct numbers. -/
theorem nodup_nums_values (id : ρ → Id kind)
    (hid : ∀ ⦃i : Id kind⦄ ⦃row : ρ⦄, table[i]? = some row → id row = i) :
    (table.values.map fun row => (id row).num).Nodup := by
  rw [List.Nodup, List.pairwise_map]
  refine distinct_values fun i i' row row' hrow hrow' hnum => ?_
  rw [hid hrow, hid hrow'] at hnum
  cases i
  cases i'
  exact congrArg Id.mk hnum

/-- The number of a listed row is the number it is filed under. -/
theorem mem_nums_values {id : ρ → Id kind}
    (hid : ∀ ⦃i : Id kind⦄ ⦃row : ρ⦄, table[i]? = some row → id row = i)
    {num : UInt64} (h : num ∈ table.values.map fun row => (id row).num) :
    (⟨num⟩ : Id kind) ∈ table := by
  obtain ⟨row, hmem, rfl⟩ := List.mem_map.mp h
  obtain ⟨i, hrow⟩ := mem_values_iff.mp hmem
  rw [hid hrow]
  exact mem_iff_exists.mpr ⟨row, hrow⟩

end Listed

/-- **A number names at most one row, of whatever kind.** -/
theorem nodup_numbers (hsound : store.Sound) (h : store.Apart) : store.numbers.Nodup := by
  have hpermissions := nodup_nums_values Permission.id hsound.permission_id
  have hattributes := nodup_nums_values Attribute.id hsound.attribute_id
  have hroles := nodup_nums_values Role.id hsound.role_id
  rw [numbers, List.nodup_append', List.nodup_append']
  refine ⟨⟨hpermissions, hattributes, fun num hfirst hsecond => ?_⟩, hroles,
    fun num hfirst hsecond => ?_⟩
  · exact h.permission_attribute (mem_nums_values hsound.permission_id hfirst)
      (mem_nums_values hsound.attribute_id hsecond) rfl
  · have hrole := mem_nums_values hsound.role_id hsecond
    rcases List.mem_append.mp hfirst with hpermission | hattribute
    · exact h.permission_role (mem_nums_values hsound.permission_id hpermission) hrole rfl
    · exact h.attribute_role (mem_nums_values hsound.attribute_id hattribute) hrole rfl

end MemoryStore

end GradedAccess
