import GradedAccess.Invalidation
import GradedAccess.Proofs.Reload.Mirror
import GradedAccess.Proofs.Store.History

/-!
# What an operation touches

A store consists of parts that change by themselves: whether a role exists, the grants of a role,
the values of a role, the ceilings of a job.  An operation changes one part, and an event announces
that certain parts may have changed (`Event.Refreshes`).

The operations meant here leave permissions and attributes alone, and the values they write are of
the kind of their attribute (`Operation.Fits`).  After any number of them `Drift` says how the
store compares with what it was: what no operation has touched is the same, and whatever role is
there under a number that was in use before is the role that was there before.
-/

namespace GradedAccess

open Std (ExtTreeMap LawfulEqOrd)

/-- A part of a store that changes by itself. -/
inductive Part where
  /-- Whether a role exists. -/
  | role (id : RoleId)
  | grants (role : RoleId)
  | values (role : RoleId)
  | ceilings (job : String)
  deriving DecidableEq

/-- Whether an event announces a part.  Either event about a role announces the role itself. -/
def Event.Refreshes : Event → Part → Prop
  | .roleGrants id, .role id' | .roleGrants id, .grants id' => id' = id
  | .roleValues id, .role id' | .roleValues id, .values id' => id' = id
  | .jobCeilings job, .ceilings job' => job' = job
  | _, _ => False

instance (event : Event) (part : Part) : Decidable (event.Refreshes part) :=
  match event, part with
  | .roleGrants id, .role id' | .roleGrants id, .grants id'
  | .roleValues id, .role id'
  | .roleValues id, .values id' => inferInstanceAs (Decidable (id' = id))
  | .jobCeilings job, .ceilings job' => inferInstanceAs (Decidable (job' = job))
  | .roleGrants _, .values _ | .roleGrants _, .ceilings _
  | .roleValues _, .grants _ | .roleValues _, .ceilings _
  | .jobCeilings _, .role _ | .jobCeilings _, .grants _
  | .jobCeilings _, .values _ => inferInstanceAs (Decidable False)

/-- The part of a store an operation is about. -/
def Operation.part (store : MemoryStore) : Operation → Option Part
  | .createRole _ _ => some (.role store.nextId)
  | .deleteRole role => some (.role role)
  | .setGrant role _ _ => some (.grants role)
  | .setValue role _ _ | .removeValue role _ => some (.values role)
  | .setCeiling job _ _ | .removeCeiling job _ => some (.ceilings job)
  | .createPermission _ | .createAttribute _ | .redefine .. => none

/-- The part of a store an operation changes, if it changes anything. -/
def Operation.touched (store : MemoryStore) (op : Operation) : Option Part :=
  if store.after op = store then none else op.part store

/-- Whether an operation changes a part of a store. -/
def Operation.Touches (store : MemoryStore) (op : Operation) (part : Part) : Prop :=
  part ∈ op.touched store

/-- The parts of a store that some operations change, one after another. -/
def touchedParts : MemoryStore → List Operation → List Part
  | _, [] => []
  | store, op :: ops => (op.touched store).toList ++ touchedParts (store.after op) ops

/-- Whether some operations, one after another, change a part of a store. -/
def Touched (store : MemoryStore) (ops : List Operation) (part : Part) : Prop :=
  part ∈ touchedParts store ops

theorem touched_cons (store : MemoryStore) (op : Operation) (ops : List Operation) (part : Part) :
    Touched store (op :: ops) part ↔ op.Touches store part ∨ Touched (store.after op) ops part := by
  rw [Touched, touchedParts, List.mem_append, Option.mem_toList]
  rfl

theorem touched_append (store : MemoryStore) (ops ops' : List Operation) (part : Part) :
    Touched store (ops ++ ops') part ↔
      Touched store ops part ∨ Touched (store.afterAll ops) ops' part := by
  induction ops generalizing store with
  | nil => exact ⟨Or.inr, fun h => h.resolve_left List.not_mem_nil⟩
  | cons op ops ih =>
    rw [List.cons_append, touched_cons, touched_cons, ih, or_assoc]
    rfl

/-- Whether an operation leaves permissions and attributes alone, and what it writes is of the kind
of its attribute. -/
def Operation.Fits (store : MemoryStore) : Operation → Prop
  | .setValue _ attr value => ∀ v ∈ value, ∀ row ∈ store.attributes[attr]?, v.kind = row.kind
  | .setCeiling _ attr most => ∀ v ∈ most, ∀ row ∈ store.attributes[attr]?, v.kind = row.kind
  | .createPermission _ | .createAttribute _ | .redefine .. => False
  | _ => True

instance (store : MemoryStore) (op : Operation) : Decidable (op.Fits store) :=
  match op with
  | .setValue _ attr value =>
    inferInstanceAs (Decidable (∀ v ∈ value, ∀ row ∈ store.attributes[attr]?, v.kind = row.kind))
  | .setCeiling _ attr most =>
    inferInstanceAs (Decidable (∀ v ∈ most, ∀ row ∈ store.attributes[attr]?, v.kind = row.kind))
  | .createPermission _ | .createAttribute _ | .redefine .. => inferInstanceAs (Decidable False)
  | .createRole .. | .deleteRole _ | .setGrant .. | .removeValue ..
  | .removeCeiling .. => inferInstanceAs (Decidable True)

/-- Whether an operation fits depends on the attributes only. -/
theorem Operation.Fits.congr {store store' : MemoryStore} {op : Operation} (h : op.Fits store)
    (hattributes : store'.attributes = store.attributes) : op.Fits store' := by
  cases op with
  | setValue role attr value =>
    intro v hv row hrow
    exact h v hv row (hattributes ▸ hrow)
  | setCeiling job attr most =>
    intro v hv row hrow
    exact h v hv row (hattributes ▸ hrow)
  | createPermission | createAttribute | redefine => exact h
  | _ => trivial

/-! ## How stores drift apart -/

/-- How a store compares with what it was before some parts were touched. -/
structure Drift (touched : Part → Prop) (store store' : MemoryStore) : Prop where
  sound : store.Sound
  sound' : store'.Sound
  next_le : store.next ≤ store'.next
  permissions : store'.permissions = store.permissions
  attributes : store'.attributes = store.attributes
  kinds : store.WellKinded → store'.WellKinded
  role : ∀ ⦃id : RoleId⦄, ¬touched (.role id) → store'.roles[id]? = store.roles[id]?
  /-- A role under a number that has been given out before was there before. -/
  older : ∀ ⦃id : RoleId⦄ ⦃row : Role⦄, store'.roles[id]? = some row →
    id.num.toNat < store.next → store.roles[id]? = some row
  grants : ∀ ⦃id : RoleId⦄, ¬touched (.grants id) → id ∈ store'.roles →
    ∀ permission : PermissionId,
      store'.grants[(id, permission)]? = store.grants[(id, permission)]?
  values : ∀ ⦃id : RoleId⦄, ¬touched (.values id) → id ∈ store'.roles →
    ∀ attr : AttributeId, store'.values[(id, attr)]? = store.values[(id, attr)]?
  ceilings : ∀ ⦃job : String⦄, ¬touched (.ceilings job) → ∀ attr : AttributeId,
    store'.ceilings[(job, attr)]? = store.ceilings[(job, attr)]?

namespace Drift

variable {touched touched' : Part → Prop} {store store' store'' : MemoryStore}

theorem refl (touched : Part → Prop) (h : store.Sound) : Drift touched store store where
  sound := h
  sound' := h
  next_le := Nat.le_refl _
  permissions := rfl
  attributes := rfl
  kinds h := h
  role _ _ := rfl
  older _ _ hrow _ := hrow
  grants _ _ _ _ := rfl
  values _ _ _ _ := rfl
  ceilings _ _ _ := rfl

theorem mono (h : Drift touched store store') (hsub : ∀ part, touched part → touched' part) :
    Drift touched' store store' :=
  { h with
    role := fun _ hnot => h.role fun hold => hnot (hsub _ hold)
    grants := fun _ hnot => h.grants fun hold => hnot (hsub _ hold)
    values := fun _ hnot => h.values fun hold => hnot (hsub _ hold)
    ceilings := fun _ hnot => h.ceilings fun hold => hnot (hsub _ hold) }

/-- A role that is there afterwards either was there before, and is the same, or has a number that
had not been given out. -/
theorem role_cases (h : Drift touched store store') {id : RoleId} {row : Role}
    (hrow : store'.roles[id]? = some row) :
    store.roles[id]? = some row ∨ store.roles[id]? = none ∧ store.next ≤ id.num.toNat := by
  by_cases hgiven : id.num.toNat < store.next
  · exact Or.inl (h.older hrow hgiven)
  · right
    refine ⟨ExtTreeMap.getElem?_eq_none fun hmem => hgiven (h.sound.role_given hmem), ?_⟩
    exact Nat.le_of_not_lt hgiven

/-- A role that is there before and afterwards is the same. -/
theorem role_eq (h : Drift touched store store') {id : RoleId} {row row' : Role}
    (hrow : store.roles[id]? = some row) (hrow' : store'.roles[id]? = some row') : row' = row := by
  rcases h.role_cases hrow' with hold | ⟨hnone, -⟩
  · rw [hrow, Option.some.injEq] at hold
    exact hold.symm
  · rw [hrow] at hnone
    cases hnone

/-- A role that has come since then had a number that had not been given out. -/
theorem next_le_of_new (h : Drift touched store store') {id : RoleId} (hmem : id ∈ store'.roles)
    (hnot : id ∉ store.roles) : store.next ≤ id.num.toNat := by
  obtain ⟨row, hrow⟩ := mem_iff_exists.mp hmem
  rcases h.role_cases hrow with hold | ⟨-, hnew⟩
  · exact absurd (mem_iff_exists.mpr ⟨row, hold⟩) hnot
  · exact hnew

/-- A role that had gone in between was not there before. -/
theorem notMem_of_new (h : Drift touched store store') (h' : Drift touched store' store'')
    {id : RoleId} (hmem : id ∈ store''.roles) (hnot : id ∉ store'.roles) : id ∉ store.roles := by
  intro hold
  have hnew := h'.next_le_of_new hmem hnot
  exact Nat.lt_irrefl _ (Nat.lt_of_lt_of_le (h.sound.role_given hold) (Nat.le_trans h.next_le hnew))

theorem trans (h : Drift touched store store') (h' : Drift touched store' store'') :
    Drift touched store store'' where
  sound := h.sound
  sound' := h'.sound'
  next_le := Nat.le_trans h.next_le h'.next_le
  permissions := h'.permissions.trans h.permissions
  attributes := h'.attributes.trans h.attributes
  kinds hkinds := h'.kinds (h.kinds hkinds)
  role _ hnot := (h'.role hnot).trans (h.role hnot)
  older _ _ hrow hgiven := h.older (h'.older hrow (Nat.lt_of_lt_of_le hgiven h.next_le)) hgiven
  grants id hnot hmem permission := by
    rw [h'.grants hnot hmem]
    by_cases hmem' : id ∈ store'.roles
    · exact h.grants hnot hmem' permission
    · rw [h.sound'.grant_eq_none hmem', h.sound.grant_eq_none (h.notMem_of_new h' hmem hmem')]
  values id hnot hmem attr := by
    rw [h'.values hnot hmem]
    by_cases hmem' : id ∈ store'.roles
    · exact h.values hnot hmem' attr
    · rw [h.sound'.value_eq_none hmem', h.sound.value_eq_none (h.notMem_of_new h' hmem hmem')]
  ceilings _ hnot attr := (h'.ceilings hnot attr).trans (h.ceilings hnot attr)

/-- Ceilings that have not been touched are the same. -/
theorem ceilingOf_eq (h : Drift touched store store') {job : String}
    (hnot : ¬touched (.ceilings job)) (attr : AttributeId) :
    store'.ceilingOf job attr = store.ceilingOf job attr := by
  rw [MemoryStore.ceilingOf, MemoryStore.ceilingOf, h.ceilings hnot, h.attributes]

end Drift

/-! ## What operations leave alone -/

section Operations

open MemoryStore

variable {store : MemoryStore}

/-- Creating a role touches the new role. -/
theorem Drift.createRole {touched : Part → Prop} (h : store.Sound)
    (hroom : store.next < UInt64.size)
    {job : String} {grade : Grade}
    (hafter : MemoryStore.Sound { store.advance with
      roles := store.roles.insert store.nextId ⟨store.nextId, job, grade⟩ })
    (htouched : touched (.role store.nextId)) :
    Drift touched store { store.advance with
      roles := store.roles.insert store.nextId ⟨store.nextId, job, grade⟩ } where
  sound := h
  sound' := hafter
  next_le := Nat.le_succ _
  permissions := rfl
  attributes := rfl
  kinds hkinds := ⟨hkinds.value, hkinds.most⟩
  role id hnot := getElem?_insert_of_ne _ _ fun heq => hnot (heq ▸ htouched)
  older id row hrow hgiven := by
    rcases getElem?_insert_cases hrow with ⟨rfl, -⟩ | ⟨-, hrow⟩
    · rw [MemoryStore.toNat_nextId hroom] at hgiven
      exact absurd hgiven (Nat.lt_irrefl _)
    · exact hrow
  grants _ _ _ _ := rfl
  values _ _ _ _ := rfl
  ceilings _ _ _ := rfl

/-- Deleting a role touches that role. -/
theorem Drift.deleteRole {touched : Part → Prop} (h : store.Sound) {role : RoleId}
    (htouched : touched (.role role)) :
    Drift touched store { store with
      roles := store.roles.erase role
      grants := store.grants.dropRow role
      values := store.values.dropRow role } where
  sound := h
  sound' := h.deleteRole role
  next_le := Nat.le_refl _
  permissions := rfl
  attributes := rfl
  kinds hkinds := by
    refine ⟨fun id attr value row hvalue hrow => ?_, hkinds.most⟩
    rw [PairTable.getElem?_dropRow] at hvalue
    split at hvalue
    · cases hvalue
    · exact hkinds.value hvalue hrow
  role id hnot := getElem?_erase_of_ne _ fun heq => hnot (heq ▸ htouched)
  older id row hrow _ := (getElem?_erase_cases hrow).2
  grants id _ hmem permission := by
    obtain ⟨row, hrow⟩ := mem_iff_exists.mp hmem
    rw [PairTable.getElem?_dropRow, if_neg (getElem?_erase_cases hrow).1]
  values id _ hmem attr := by
    obtain ⟨row, hrow⟩ := mem_iff_exists.mp hmem
    rw [PairTable.getElem?_dropRow, if_neg (getElem?_erase_cases hrow).1]
  ceilings _ _ _ := rfl

/-- Changing the grants of a role touches these grants. -/
theorem Drift.setGrants {touched : Part → Prop} {role : RoleId}
    {grants : PairTable RoleId PermissionId Bool} (h : store.Sound)
    (hafter : MemoryStore.Sound { store with grants }) (htouched : touched (.grants role))
    (hsame : ∀ (id : RoleId) (permission : PermissionId), id ≠ role →
      grants[(id, permission)]? = store.grants[(id, permission)]?) :
    Drift touched store { store with grants } :=
  { Drift.refl touched h with
    sound' := hafter
    kinds := fun hkinds => ⟨hkinds.value, hkinds.most⟩
    grants := fun id hnot _ permission => hsame id permission fun heq => hnot (heq ▸ htouched) }

/-- Changing the values of a role touches these values. -/
theorem Drift.setValues {touched : Part → Prop} {role : RoleId}
    {values : PairTable RoleId AttributeId (Option AttributeValue)} (h : store.Sound)
    (hafter : MemoryStore.Sound { store with values }) (htouched : touched (.values role))
    (hkinds : store.WellKinded → MemoryStore.WellKinded { store with values })
    (hsame : ∀ (id : RoleId) (attr : AttributeId), id ≠ role →
      values[(id, attr)]? = store.values[(id, attr)]?) :
    Drift touched store { store with values } :=
  { Drift.refl touched h with
    sound' := hafter
    kinds := hkinds
    values := fun id hnot _ attr => hsame id attr fun heq => hnot (heq ▸ htouched) }

/-- Changing the ceilings of a job touches these ceilings. -/
theorem Drift.setCeilings {touched : Part → Prop} {job : String}
    {ceilings : PairTable String AttributeId (Option AttributeValue)} (h : store.Sound)
    (hafter : MemoryStore.Sound { store with ceilings }) (htouched : touched (.ceilings job))
    (hkinds : store.WellKinded → MemoryStore.WellKinded { store with ceilings })
    (hsame : ∀ (job' : String) (attr : AttributeId), job' ≠ job →
      ceilings[(job', attr)]? = store.ceilings[(job', attr)]?) :
    Drift touched store { store with ceilings } :=
  { Drift.refl touched h with
    sound' := hafter
    kinds := hkinds
    ceilings := fun job' hnot attr => hsame job' attr fun heq => hnot (heq ▸ htouched) }

/-- A store drifts only in the part an operation touches. -/
theorem drift_after (h : store.Sound) {op : Operation} (hroom : (store.after op).next ≤ UInt64.size)
    (hfits : op.Fits store) : Drift (op.Touches store) store (store.after op) := by
  by_cases hsame : store.after op = store
  · rw [hsame]
    exact .refl _ h
  have hafter := h.after hroom
  have htouched : ∀ part, op.part store = some part → op.Touches store part :=
    fun part hpart => (if_neg hsame).trans hpart
  cases op with
  | createRole job grade =>
    rcases createRole_cases store job grade with heq | ⟨-, heq⟩
    · exact absurd heq hsame
    · rw [heq] at hafter hroom ⊢
      exact .createRole h hroom hafter (htouched _ rfl)
  | deleteRole role =>
    rcases deleteRole_cases store role with heq | ⟨-, heq⟩
    · exact absurd heq hsame
    · rw [heq]
      exact .deleteRole h (htouched _ rfl)
  | setGrant role permission value =>
    rcases setGrant_cases store role permission value with heq | ⟨-, heq⟩
    · exact absurd heq hsame
    · rw [heq] at hafter ⊢
      refine .setGrants h hafter (htouched _ rfl) fun id permission' hne => ?_
      have hkey : (id, permission') ≠ (role, permission) := fun heq => hne (Prod.mk.inj heq).1
      cases value with
      | none => exact getElem?_erase_of_ne _ hkey
      | some value => exact getElem?_insert_of_ne _ _ hkey
  | setValue role attr value =>
    rcases setValue_cases store role attr value with heq | ⟨-, heq⟩
    · exact absurd heq hsame
    · rw [heq] at hafter ⊢
      exact .setValues h hafter (htouched _ rfl) (fun hkinds => hkinds.setValue hfits)
        fun id attr' hne => getElem?_insert_of_ne _ _ fun heq => hne (Prod.mk.inj heq).1
  | removeValue role attr =>
    exact .setValues h hafter (htouched _ rfl) (fun hkinds => hkinds.removeValue role attr)
      fun id attr' hne => getElem?_erase_of_ne _ fun heq => hne (Prod.mk.inj heq).1
  | setCeiling job attr most =>
    rcases setCeiling_cases store job attr most with heq | ⟨-, heq⟩
    · exact absurd heq hsame
    · rw [heq] at hafter ⊢
      exact .setCeilings h hafter (htouched _ rfl) (fun hkinds => hkinds.setCeiling hfits)
        fun job' attr' hne => getElem?_insert_of_ne _ _ fun heq => hne (Prod.mk.inj heq).1
  | removeCeiling job attr =>
    exact .setCeilings h hafter (htouched _ rfl) (fun hkinds => hkinds.removeCeiling job attr)
      fun job' attr' hne => getElem?_erase_of_ne _ fun heq => hne (Prod.mk.inj heq).1
  | createPermission new => exact hfits.elim
  | createAttribute new => exact hfits.elim
  | redefine id kind valid => exact hfits.elim

/-- A store drifts only in the parts that operations touch. -/
theorem drift_afterAll (h : store.Sound) {ops : List Operation}
    (hroom : (store.afterAll ops).next ≤ UInt64.size) (hfits : ∀ op ∈ ops, op.Fits store) :
    Drift (Touched store ops) store (store.afterAll ops) := by
  induction ops generalizing store with
  | nil => exact .refl _ h
  | cons op ops ih =>
    rw [List.forall_mem_cons] at hfits
    rw [afterAll_cons] at hroom ⊢
    have hfirst := drift_after h (Nat.le_trans (next_le_afterAll _ ops) hroom) hfits.1
    have hrest := ih hfirst.sound' hroom fun op hmem => (hfits.2 op hmem).congr hfirst.attributes
    exact (hfirst.mono fun part h => (touched_cons store op ops part).mpr (Or.inl h)).trans
      (hrest.mono fun part h => (touched_cons store op ops part).mpr (Or.inr h))

end Operations

end GradedAccess
