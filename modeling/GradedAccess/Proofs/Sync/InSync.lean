import GradedAccess.Proofs.Roles.Single
import GradedAccess.Proofs.Store.Listing
import GradedAccess.Proofs.Sync.Drift

/-!
# Caches that are in sync, up to what is due

Between the moment a part of a store is touched and the moment it is refreshed, caches may hold
anything for it that was once true.  `Caches.InSync due` says what caches hold in the meantime: for
every part that is not due, just what a full load would give.

Two exceptions come with the way parts hang together.  What is set for a role that is gone may
still be cached while the role itself is due, since deleting a role deletes everything that is set
for it.  A value is only kept to the ceiling it should be kept to while the ceilings of its job are
not due.

There is one structure for each table, and one law for each that says when a table stays in sync.
The law goes through the rows of the table and asks of each group of rows only what became of it:
kept as it was, taken from the store, or dropped.  Everything is related to one store as it was
when a reload began, and to the same store as it is when the reload has ended.
-/

namespace GradedAccess

open Std (ExtTreeMap)

variable {due touched fresh : Part → Prop} {store store' : MemoryStore}

/-- What is due after some parts have been refreshed and others touched meanwhile. -/
def DueAfter (due touched fresh : Part → Prop) (part : Part) : Prop :=
  touched part ∨ due part ∧ ¬fresh part

theorem not_dueAfter_iff {part : Part} :
    ¬DueAfter due touched fresh part ↔ ¬touched part ∧ (due part → fresh part) := by
  rw [DueAfter, not_or, not_and, not_not]

/-! ## Roles -/

/-- Whether a role index is in sync up to what is due. -/
structure RoleIndex.InSync (due : Part → Prop) (index : RoleIndex) (store : MemoryStore) :
    Prop where
  filed : index.Filed
  placed : index.Placed
  given : ∀ ⦃id : RoleId⦄ ⦃row : Role⦄, index.role id = some row → id.num.toNat < store.next
  same : ∀ ⦃id : RoleId⦄ ⦃row row' : Role⦄, index.role id = some row →
    store.roles[id]? = some row' → row = row'
  role : ∀ ⦃id : RoleId⦄, ¬due (.role id) → index.role id = store.roles[id]?
  slot : ∀ ⦃id : RoleId⦄ ⦃row : Role⦄, ¬due (.role id) → store.roles[id]? = some row →
    index.roleId row.job row.grade = some id

namespace RoleIndex.InSync

variable {index : RoleIndex}

/-- An index that has the roles of a store, each in its slot, is in sync with it, and nothing is
due. -/
theorem of_store (hsound : store.Sound) (hroles : ∀ id, index.role id = store.roles[id]?)
    (hslots : ∀ job grade id, index.roleId job grade = some id ↔
      ∃ row, store.roles[id]? = some row ∧ row.job = job ∧ row.grade = grade) :
    index.InSync (fun _ => False) store where
  filed id row hrow := hsound.role_id ((hroles id).symm.trans hrow)
  placed job grade id hslot := by
    obtain ⟨row, hrow, rfl, rfl⟩ := (hslots job grade id).mp hslot
    obtain rfl := hsound.role_id hrow
    rw [hroles, hrow]
  given id row hrow := by
    rw [hroles] at hrow
    exact hsound.role_given (mem_iff_exists.mpr ⟨row, hrow⟩)
  same id row row' hrow hrow' := by
    rw [hroles, hrow', Option.some.injEq] at hrow
    exact hrow.symm
  role id _ := hroles id
  slot id row _ hrow := (hslots row.job row.grade id).mpr ⟨row, hrow, rfl, rfl⟩

/-- Roles stay in sync while other parts are touched. -/
theorem drift (h : index.InSync due store) (hdrift : Drift touched store store') :
    index.InSync (fun part => touched part ∨ due part) store' where
  filed := h.filed
  placed := h.placed
  given id row hrow := Nat.lt_of_lt_of_le (h.given hrow) hdrift.next_le
  same id row row' hrow hrow' := h.same hrow (hdrift.older hrow' (h.given hrow))
  role id hnot := by
    rw [not_or] at hnot
    rw [h.role hnot.2, hdrift.role hnot.1]
  slot id row hnot hrow := by
    rw [not_or] at hnot
    rw [hdrift.role hnot.1] at hrow
    exact h.slot hnot.2 hrow

/-- What is said of due roles does not matter beyond the roles that are due. -/
theorem mono {due' : Part → Prop} (h : index.InSync due store)
    (hsub : ∀ id, due (.role id) → due' (.role id)) : index.InSync due' store :=
  { h with
    role := fun id hnot => h.role fun hdue => hnot (hsub id hdue)
    slot := fun id _ hnot => h.slot fun hdue => hnot (hsub id hdue) }

/-- Rows of the store say of cached roles what the cache says. -/
theorem unmoved (h : index.InSync due store) {rows : List Role}
    (hrows : ∀ row ∈ rows, store.roles[row.id]? = some row) : index.Unmoved rows :=
  fun row hmem _ hearlier => h.same hearlier (hrows row hmem)

/-- A role that is put into the index as the store has it is not due any more. -/
theorem upsert (h : index.InSync due store) (hsound : store.Sound) {row : Role}
    (hrow : store.roles[row.id]? = some row) :
    (index.upsert row).InSync (fun part => due part ∧ part ≠ .role row.id) store := by
  have hunmoved : index.Unmoved [row] := h.unmoved fun other hmem => by
    rwa [List.mem_singleton.mp hmem]
  refine ⟨h.filed.upsert row, h.placed.upsert h.filed row, ?_, ?_, ?_, ?_⟩
  · intro id found hfound
    rw [RoleIndex.role_upsert] at hfound
    split at hfound
    · next hid =>
      subst hid
      exact hsound.role_given (mem_iff_exists.mpr ⟨row, hrow⟩)
    · exact h.given hfound
  · intro id found row' hfound hrow'
    rw [RoleIndex.role_upsert] at hfound
    split at hfound
    · next hid =>
      subst hid
      rw [hrow, Option.some.injEq] at hrow'
      exact (Option.some.inj hfound).symm.trans hrow'
    · exact h.same hfound hrow'
  · intro id hnot
    rw [RoleIndex.role_upsert]
    by_cases hid : id = row.id
    · rw [if_pos hid, hid, hrow]
    · rw [if_neg hid]
      exact h.role fun hdue => hnot ⟨hdue, fun heq => hid (Part.role.inj heq)⟩
  · intro id row' hnot hrow'
    rw [RoleIndex.roleId_upsert hunmoved]
    by_cases hslot : row'.job = row.job ∧ row'.grade = row.grade
    · rw [if_pos hslot, hsound.slot_once hrow' hrow hslot]
    · rw [if_neg hslot]
      refine h.slot (fun hdue => hnot ⟨hdue, ?_⟩) hrow'
      intro heq
      obtain rfl := Part.role.inj heq
      rw [hrow, Option.some.injEq] at hrow'
      exact hslot ⟨hrow' ▸ rfl, hrow' ▸ rfl⟩

/-- A role that the store does not have is not due any more after it has been dropped. -/
theorem remove (h : index.InSync due store) {id : RoleId} (hnone : store.roles[id]? = none) :
    (index.remove id).InSync (fun part => due part ∧ part ≠ .role id) store := by
  refine ⟨h.filed.remove id, h.placed.remove h.filed id, ?_, ?_, ?_, ?_⟩
  · intro id' found hfound
    rw [RoleIndex.role_remove, Option.ite_none_left_eq_some] at hfound
    exact h.given hfound.2
  · intro id' found row' hfound hrow'
    rw [RoleIndex.role_remove, Option.ite_none_left_eq_some] at hfound
    exact h.same hfound.2 hrow'
  · intro id' hnot
    rw [RoleIndex.role_remove]
    by_cases hid : id' = id
    · rw [if_pos hid, hid, hnone]
    · rw [if_neg hid]
      exact h.role fun hdue => hnot ⟨hdue, fun heq => hid (Part.role.inj heq)⟩
  · intro id' row hnot hrow
    have hne : id' ≠ id := by
      rintro rfl
      rw [hnone] at hrow
      cases hrow
    have hslot := h.slot (fun hdue => hnot ⟨hdue, fun heq => hne (Part.role.inj heq)⟩) hrow
    rw [RoleIndex.roleId_remove h.filed h.placed, if_neg, hslot]
    rw [hslot, Option.some.injEq]
    exact hne

section Job

variable {job : String} {rows : List Role}
  (hrows : ∀ row, row ∈ rows ↔ store.roles[row.id]? = some row ∧ row.job = job)
include hrows

theorem mem_claims_of_store (hsound : store.Sound) {row : Role} :
    row ∈ RoleIndex.claims job rows ↔ store.roles[row.id]? = some row ∧ row.job = job := by
  have hslots : ∀ a ∈ rows, ∀ b ∈ rows, a.job = b.job ∧ a.grade = b.grade → a = b := by
    intro a ha b hb hslot
    have ha := ((hrows a).mp ha).1
    have hb := ((hrows b).mp hb).1
    rw [hsound.slot_once ha hb hslot, hb] at ha
    exact (Option.some.inj ha).symm
  rw [RoleIndex.mem_claims_iff_of_slots hslots, hrows, and_assoc, and_self]

/-- After a job has been replaced, a cached role is one of the store or was cached before. -/
theorem role_replaceJob_cases (hdistinct : rows.Pairwise fun a b => a.id ≠ b.id) {id : RoleId}
    {found : Role} (hfound : (index.replaceJob job rows).1.role id = some found) :
    store.roles[id]? = some found ∨ index.role id = some found := by
  rw [RoleIndex.role_replaceJob hdistinct, Option.or_eq_some_iff] at hfound
  rcases hfound with hclaim | ⟨-, hkept⟩
  · obtain ⟨hmem, rfl⟩ := RoleIndex.of_find? hclaim
    exact Or.inl ((hrows found).mp (RoleIndex.mem_claims_iff.mp hmem).1).1
  · rw [Option.ite_none_left_eq_some] at hkept
    exact Or.inr hkept.2

/-- Replacing a job by the roles the store has for it keeps roles in sync. -/
theorem replaceJob (h : index.InSync due store) (hsound : store.Sound)
    (hdistinct : rows.Pairwise fun a b => a.id ≠ b.id) :
    (index.replaceJob job rows).1.InSync due store := by
  have hunmoved : index.Unmoved rows := h.unmoved fun row hmem => ((hrows row).mp hmem).1
  refine ⟨h.filed.replaceJob job rows, h.placed.replaceJob hdistinct job, ?_, ?_, ?_, ?_⟩
  · intro id found hfound
    rcases role_replaceJob_cases hrows hdistinct hfound with hstored | hcached
    · exact hsound.role_given (mem_iff_exists.mpr ⟨found, hstored⟩)
    · exact h.given hcached
  · intro id found row' hfound hrow'
    rcases role_replaceJob_cases hrows hdistinct hfound with hstored | hcached
    · rw [hstored, Option.some.injEq] at hrow'
      exact hrow'
    · exact h.same hcached hrow'
  · intro id hnot
    by_cases hjob : ∃ row, store.roles[id]? = some row ∧ row.job = job
    · obtain ⟨row, hrow, hjob⟩ := hjob
      obtain rfl := hsound.role_id hrow
      have hclaim := (mem_claims_of_store hrows hsound).mpr ⟨hrow, hjob⟩
      rw [RoleIndex.role_replaceJob_of_claim hdistinct hclaim, hrow]
    · -- what is not due is cached as it is stored, so it does not belong to the job here either
      rw [RoleIndex.role_replaceJob_of_ne hdistinct, if_neg, h.role hnot]
      · rintro ⟨-, hown⟩
        rw [RoleIndex.jobOf, h.role hnot, Option.map_eq_some_iff] at hown
        exact hjob hown
      · rintro row hclaim rfl
        exact hjob ⟨row, (mem_claims_of_store hrows hsound).mp hclaim⟩
  · intro id row hnot hrow
    obtain rfl := hsound.role_id hrow
    by_cases hjob : row.job = job
    · subst hjob
      have hclaim := (mem_claims_of_store hrows hsound).mpr ⟨hrow, rfl⟩
      exact RoleIndex.roleId_replaceJob_self.mpr (RoleIndex.mem_claims_iff.mp hclaim).2.2
    · rw [RoleIndex.roleId_replaceJob_of_unmoved h.filed h.placed hunmoved hjob]
      exact h.slot hnot hrow

end Job

end RoleIndex.InSync

/-! ## Grants -/

/-- Whether cached grants are in sync up to what is due. -/
structure GrantsInSync (due : Part → Prop) (grants : PairTable RoleId PermissionId Bool)
    (store : MemoryStore) : Prop where
  given : ∀ ⦃id : RoleId⦄ ⦃permission : PermissionId⦄, (id, permission) ∈ grants →
    id.num.toNat < store.next
  grant : ∀ ⦃id : RoleId⦄, ¬due (.grants id) → (id ∈ store.roles ∨ ¬due (.role id)) →
    ∀ permission : PermissionId, grants[(id, permission)]? = store.grants[(id, permission)]?

/-- What a reload has done to the grants of a role: kept them, taken them from the store as it was
at some time during the reload, or dropped them with a role that was not there when it began. -/
inductive GrantsOutcome (touched fresh : Part → Prop) (store store' : MemoryStore)
    (grants grants' : PairTable RoleId PermissionId Bool) (id : RoleId) : Prop where
  | kept (hgrants : ¬fresh (.grants id)) (hrole : fresh (.role id) → id ∈ store.roles)
    (hsame : ∀ permission : PermissionId,
      grants'[(id, permission)]? = grants[(id, permission)]?)
  | taken (hmem : id ∈ store.roles) (between : MemoryStore)
    (hdrift : Drift touched between store')
    (htaken : ∀ permission : PermissionId,
      grants'[(id, permission)]? = between.grants[(id, permission)]?)
  | dropped (hnot : id ∉ store.roles)
    (hnone : ∀ permission : PermissionId, grants'[(id, permission)]? = none)

/-- A role that is gone, and is not due, was gone when the reload began. -/
theorem notMem_of_gone (hdrift : Drift touched store store') {id : RoleId}
    (hgone : id ∉ store'.roles) (htouched : ¬touched (.role id)) : id ∉ store.roles := by
  intro hmem
  obtain ⟨row, hrow⟩ := mem_iff_exists.mp hmem
  rw [← hdrift.role htouched] at hrow
  exact hgone (mem_iff_exists.mpr ⟨row, hrow⟩)

section Grants

variable {grants grants' : PairTable RoleId PermissionId Bool} {id : RoleId}

/-- What is cached afterwards for a role that is there. -/
theorem GrantsInSync.eq_of_mem (h : GrantsInSync due grants store)
    (hdrift : Drift touched store store')
    (houtcome : GrantsOutcome touched fresh store store' grants grants' id)
    (hmem' : id ∈ store'.roles) (hnot : ¬DueAfter due touched fresh (.grants id))
    (permission : PermissionId) :
    grants'[(id, permission)]? = store'.grants[(id, permission)]? := by
  rw [not_dueAfter_iff] at hnot
  cases houtcome with
  | kept hgrants _ hsame =>
    rw [hsame]
    by_cases hmem : id ∈ store.roles
    · rw [h.grant (fun hdue => hgrants (hnot.2 hdue)) (Or.inl hmem), hdrift.grants hnot.1 hmem']
    · -- the role is new, so nothing can have been cached for it
      have hnew := hdrift.next_le_of_new hmem' hmem
      rw [hdrift.grants hnot.1 hmem', hdrift.sound.grant_eq_none hmem]
      exact ExtTreeMap.getElem?_eq_none fun hcached => Nat.not_lt_of_le hnew (h.given hcached)
  | taken _ between hbetween htaken => rw [htaken, hbetween.grants hnot.1 hmem']
  | dropped hmem hnone => rw [hnone, hdrift.grants hnot.1 hmem', hdrift.sound.grant_eq_none hmem]

/-- Nothing is cached afterwards for a role that is gone. -/
theorem GrantsInSync.eq_none_of_gone (h : GrantsInSync due grants store)
    (hdrift : Drift touched store store')
    (houtcome : GrantsOutcome touched fresh store store' grants grants' id)
    (hgone : id ∉ store'.roles) (hnot : ¬DueAfter due touched fresh (.grants id))
    (hrole : ¬DueAfter due touched fresh (.role id)) (permission : PermissionId) :
    grants'[(id, permission)]? = none := by
  rw [not_dueAfter_iff] at hnot hrole
  have hmem := notMem_of_gone hdrift hgone hrole.1
  cases houtcome with
  | kept hgrants hfresh hsame =>
    rw [hsame, h.grant (fun hdue => hgrants (hnot.2 hdue))
      (Or.inr fun hdue => hmem (hfresh (hrole.2 hdue))), hdrift.sound.grant_eq_none hmem]
  | taken hmem' => exact absurd hmem' hmem
  | dropped _ hnone => exact hnone permission

/-- Grants stay in sync through a reload and what happens meanwhile. -/
theorem GrantsInSync.after (h : GrantsInSync due grants store)
    (hdrift : Drift touched store store')
    (houtcome : ∀ id, GrantsOutcome touched fresh store store' grants grants' id) :
    GrantsInSync (DueAfter due touched fresh) grants' store' where
  given id permission hmem := by
    obtain ⟨value, hvalue⟩ := mem_iff_exists.mp hmem
    refine Nat.lt_of_lt_of_le ?_ hdrift.next_le
    cases houtcome id with
    | kept _ _ hsame =>
      rw [hsame] at hvalue
      exact h.given (mem_iff_exists.mpr ⟨value, hvalue⟩)
    | taken hmem => exact hdrift.sound.role_given hmem
    | dropped _ hnone =>
      rw [hnone] at hvalue
      cases hvalue
  grant id hnot hrole permission := by
    by_cases hmem' : id ∈ store'.roles
    · exact h.eq_of_mem hdrift (houtcome id) hmem' hnot permission
    · rw [hdrift.sound'.grant_eq_none hmem']
      exact h.eq_none_of_gone hdrift (houtcome id) hmem' hnot (hrole.resolve_left hmem') permission

end Grants

/-! ## Values -/

/-- Whether cached values are in sync up to what is due. -/
structure ValuesInSync (due : Part → Prop) (values : PairTable RoleId AttributeId AttributeValue)
    (store : MemoryStore) : Prop where
  given : ∀ ⦃id : RoleId⦄ ⦃attr : AttributeId⦄, (id, attr) ∈ values →
    id.num.toNat < store.next
  value : ∀ ⦃id : RoleId⦄, ¬due (.values id) → (id ∈ store.roles ∨ ¬due (.role id)) →
    (∀ row, store.roles[id]? = some row → ¬due (.ceilings row.job)) →
      ∀ attr : AttributeId, values[(id, attr)]? = store.valueOf id attr

/-- What a reload has done to the values of a role: kept them, taken them from the store and kept
them to some ceilings, or dropped them with a role that was not there when it began. -/
inductive ValuesOutcome (due touched fresh : Part → Prop) (store store' : MemoryStore)
    (values values' : PairTable RoleId AttributeId AttributeValue) (id : RoleId) : Prop where
  | kept (hvalues : ¬fresh (.values id)) (hrole : fresh (.role id) → id ∈ store.roles)
    (hceilings : ∀ row, store.roles[id]? = some row → ¬fresh (.ceilings row.job))
    (hsame : ∀ attr : AttributeId, values'[(id, attr)]? = values[(id, attr)]?)
  | taken (row : Role) (hrow : store.roles[id]? = some row) (between : MemoryStore)
    (hdrift : Drift touched between store') (ceiling : AttributeId → Option AttributeValue)
    (hceiling : ¬DueAfter due touched fresh (.ceilings row.job) →
      ∀ attr, ceiling attr = store'.ceilingOf row.job attr)
    (htaken : ∀ attr : AttributeId, values'[(id, attr)]? =
      between.values[(id, attr)]?.bind fun value =>
        store.attributes[attr]?.map fun row => row.kept (ceiling attr) value)
  | dropped (hnot : id ∉ store.roles) (hnone : ∀ attr : AttributeId, values'[(id, attr)]? = none)

/-- A role that is not there has no kept values either. -/
theorem valueOf_eq_none (hsound : store.Sound) {id : RoleId} (hnot : id ∉ store.roles)
    (attr : AttributeId) : store.valueOf id attr = none := by
  rw [MemoryStore.valueOf, hsound.value_eq_none hnot]
  rfl

/-- The kept values of a role are the same if neither its values nor the ceilings of its job have
been touched. -/
theorem Drift.valueOf_eq (h : Drift touched store store') {id : RoleId} {row : Role}
    (hrow : store.roles[id]? = some row) (hmem' : id ∈ store'.roles)
    (hvalues : ¬touched (.values id)) (hceilings : ¬touched (.ceilings row.job))
    (attr : AttributeId) : store'.valueOf id attr = store.valueOf id attr := by
  obtain ⟨row', hrow'⟩ := mem_iff_exists.mp hmem'
  obtain rfl := h.role_eq hrow hrow'
  rw [MemoryStore.valueOf, MemoryStore.valueOf, h.values hvalues hmem', hrow, hrow', h.attributes,
    Option.bind_congr fun _ _ => ?_]
  rw [Option.bind_some, Option.bind_some, h.ceilingOf_eq hceilings]

section Values

variable {values values' : PairTable RoleId AttributeId AttributeValue} {id : RoleId}

/-- What is cached afterwards for a role that is there. -/
theorem ValuesInSync.eq_of_mem (h : ValuesInSync due values store)
    (hdrift : Drift touched store store')
    (houtcome : ValuesOutcome due touched fresh store store' values values' id) {row' : Role}
    (hrow' : store'.roles[id]? = some row') (hnot : ¬DueAfter due touched fresh (.values id))
    (hceilings : ¬DueAfter due touched fresh (.ceilings row'.job)) (attr : AttributeId) :
    values'[(id, attr)]? = store'.valueOf id attr := by
  have hmem' : id ∈ store'.roles := mem_iff_exists.mpr ⟨row', hrow'⟩
  rw [not_dueAfter_iff] at hnot
  cases houtcome with
  | kept hvalues _ hjob hsame =>
    rw [hsame]
    by_cases hmem : id ∈ store.roles
    · obtain ⟨row, hrow⟩ := mem_iff_exists.mp hmem
      obtain rfl := hdrift.role_eq hrow hrow'
      rw [not_dueAfter_iff] at hceilings
      rw [hdrift.valueOf_eq hrow hmem' hnot.1 hceilings.1]
      refine h.value (fun hdue => hvalues (hnot.2 hdue)) (Or.inl hmem) ?_ attr
      intro other hother hdue
      rw [hrow, Option.some.injEq] at hother
      subst hother
      exact hjob row' hrow (hceilings.2 hdue)
    · -- the role is new, so nothing can have been cached for it
      have hnew := hdrift.next_le_of_new hmem' hmem
      rw [MemoryStore.valueOf, hdrift.values hnot.1 hmem', hdrift.sound.value_eq_none hmem]
      exact ExtTreeMap.getElem?_eq_none fun hcached => Nat.not_lt_of_le hnew (h.given hcached)
  | taken row hrow between hbetween ceiling hceiling htaken =>
    obtain rfl := hdrift.role_eq hrow hrow'
    rw [htaken, MemoryStore.valueOf, hbetween.values hnot.1 hmem', hrow', hdrift.attributes]
    refine Option.bind_congr fun value _ => ?_
    rw [Option.bind_some, hceiling hceilings]
  | dropped hmem hnone =>
    rw [hnone, MemoryStore.valueOf, hdrift.values hnot.1 hmem', hdrift.sound.value_eq_none hmem]
    rfl

/-- Nothing is cached afterwards for a role that is gone. -/
theorem ValuesInSync.eq_none_of_gone (h : ValuesInSync due values store)
    (hdrift : Drift touched store store')
    (houtcome : ValuesOutcome due touched fresh store store' values values' id)
    (hgone : id ∉ store'.roles) (hnot : ¬DueAfter due touched fresh (.values id))
    (hrole : ¬DueAfter due touched fresh (.role id)) (attr : AttributeId) :
    values'[(id, attr)]? = none := by
  rw [not_dueAfter_iff] at hnot hrole
  have hmem := notMem_of_gone hdrift hgone hrole.1
  have hrows : ∀ row, store.roles[id]? ≠ some row := fun row hrow =>
    hmem (mem_iff_exists.mpr ⟨row, hrow⟩)
  cases houtcome with
  | kept hvalues hfresh _ hsame =>
    rw [hsame, h.value (fun hdue => hvalues (hnot.2 hdue))
      (Or.inr fun hdue => hmem (hfresh (hrole.2 hdue))) fun row hrow => absurd hrow (hrows row)]
    exact valueOf_eq_none hdrift.sound hmem attr
  | taken row hrow => exact absurd hrow (hrows row)
  | dropped _ hnone => exact hnone attr

/-- Values stay in sync through a reload and what happens meanwhile. -/
theorem ValuesInSync.after (h : ValuesInSync due values store)
    (hdrift : Drift touched store store')
    (houtcome : ∀ id, ValuesOutcome due touched fresh store store' values values' id) :
    ValuesInSync (DueAfter due touched fresh) values' store' where
  given id attr hmem := by
    obtain ⟨value, hvalue⟩ := mem_iff_exists.mp hmem
    refine Nat.lt_of_lt_of_le ?_ hdrift.next_le
    cases houtcome id with
    | kept _ _ _ hsame =>
      rw [hsame] at hvalue
      exact h.given (mem_iff_exists.mpr ⟨value, hvalue⟩)
    | taken row hrow => exact hdrift.sound.role_given (mem_iff_exists.mpr ⟨row, hrow⟩)
    | dropped _ hnone =>
      rw [hnone] at hvalue
      cases hvalue
  value id hnot hrole hceilings attr := by
    by_cases hmem' : id ∈ store'.roles
    · obtain ⟨row', hrow'⟩ := mem_iff_exists.mp hmem'
      exact h.eq_of_mem hdrift (houtcome id) hrow' hnot (hceilings row' hrow') attr
    · rw [valueOf_eq_none hdrift.sound' hmem']
      exact h.eq_none_of_gone hdrift (houtcome id) hmem' hnot (hrole.resolve_left hmem') attr

end Values

/-! ## Ceilings -/

/-- Whether cached ceilings are in sync up to what is due. -/
structure CeilingsInSync (due : Part → Prop)
    (ceilings : PairTable String AttributeId AttributeValue) (store : MemoryStore) : Prop where
  kind : ∀ ⦃job : String⦄ ⦃attr : AttributeId⦄ ⦃most : AttributeValue⦄ ⦃row : Attribute⦄,
    ceilings[(job, attr)]? = some most → store.attributes[attr]? = some row → most.kind = row.kind
  ceiling : ∀ ⦃job : String⦄, ¬due (.ceilings job) →
    ∀ attr : AttributeId, ceilings[(job, attr)]? = store.ceilingOf job attr

/-- What a reload has done to the ceilings of a job: kept them, or taken them from the store. -/
inductive CeilingsOutcome (touched fresh : Part → Prop) (store' : MemoryStore)
    (ceilings ceilings' : PairTable String AttributeId AttributeValue) (job : String) : Prop where
  | kept (hceilings : ¬fresh (.ceilings job))
    (hsame : ∀ attr : AttributeId, ceilings'[(job, attr)]? = ceilings[(job, attr)]?)
  | taken (between : MemoryStore) (hdrift : Drift touched between store')
    (hkinds : between.WellKinded)
    (htaken : ∀ attr : AttributeId, ceilings'[(job, attr)]? = between.ceilingOf job attr)

/-- Ceilings stay in sync through a reload and what happens meanwhile. -/
theorem CeilingsInSync.after {ceilings ceilings' : PairTable String AttributeId AttributeValue}
    (h : CeilingsInSync due ceilings store) (hdrift : Drift touched store store')
    (houtcome : ∀ job, CeilingsOutcome touched fresh store' ceilings ceilings' job) :
    CeilingsInSync (DueAfter due touched fresh) ceilings' store' where
  kind job attr most row hmost hrow := by
    cases houtcome job with
    | kept _ hsame =>
      rw [hsame] at hmost
      exact h.kind hmost (hdrift.attributes ▸ hrow)
    | taken between hbetween hkinds htaken =>
      rw [htaken] at hmost
      exact hkinds.kind_ceilingOf hmost (hbetween.attributes ▸ hrow)
  ceiling job hnot attr := by
    rw [not_dueAfter_iff] at hnot
    cases houtcome job with
    | kept hceilings hsame =>
      rw [hsame, h.ceiling (fun hdue => hceilings (hnot.2 hdue)), hdrift.ceilingOf_eq hnot.1]
    | taken between hbetween _ htaken => rw [htaken, hbetween.ceilingOf_eq hnot.1]

/-! ## All of it -/

/-- Whether caches are in sync with a store up to what is due. -/
structure Caches.InSync (due : Part → Prop) (caches : Caches) (store : MemoryStore) : Prop where
  sound : store.Sound
  kinds : store.WellKinded
  catalog : Caches.Mirrors.Catalog caches.catalog store
  roles : caches.roles.InSync due store
  grants : GrantsInSync due caches.grants store
  values : ValuesInSync due caches.values store
  ceilings : CeilingsInSync due caches.ceilings store

namespace Caches

variable {caches : Caches}

/-- Caches that mirror a store are in sync with it, and nothing is due. -/
theorem Mirrors.inSync (h : caches.Mirrors store) (hsound : store.Sound)
    (hkinds : store.WellKinded) : caches.InSync (fun _ => False) store where
  sound := hsound
  kinds := hkinds
  catalog := h.catalog
  roles := .of_store hsound h.roles h.slots
  grants := {
    given := fun id permission hmem => by
      obtain ⟨value, hvalue⟩ := mem_iff_exists.mp hmem
      have hstored := (h.grants id permission).symm.trans hvalue
      exact hsound.role_given (hsound.grant_known (mem_iff_exists.mpr ⟨value, hstored⟩)).1
    grant := fun id _ _ permission => h.grants id permission }
  values := {
    given := fun id attr hmem => by
      obtain ⟨value, hvalue⟩ := mem_iff_exists.mp hmem
      have hstored := (h.values id attr).symm.trans hvalue
      by_contra hnew
      have hnot : id ∉ store.roles := fun hmem => hnew (hsound.role_given hmem)
      rw [valueOf_eq_none hsound hnot] at hstored
      cases hstored
    value := fun id _ _ _ attr => h.values id attr }
  ceilings := {
    kind := fun job attr most row hmost hrow =>
      hkinds.kind_ceilingOf ((h.ceilings job attr).symm.trans hmost) hrow
    ceiling := fun job _ attr => h.ceilings job attr }

/-- Caches that are in sync with a store mirror it when nothing is due. -/
theorem InSync.mirrors (h : caches.InSync due store) (hdue : ∀ part, ¬due part) :
    caches.Mirrors store where
  catalog := h.catalog
  roles id := h.roles.role (hdue _)
  slots job grade id := by
    constructor
    · intro hslot
      have hrole := h.roles.placed hslot
      rw [h.roles.role (hdue _)] at hrole
      exact ⟨_, hrole, rfl, rfl⟩
    · rintro ⟨row, hrow, rfl, rfl⟩
      exact h.roles.slot (hdue _) hrow
  grants role permission := h.grants.grant (hdue _) (Or.inr (hdue _)) permission
  values role attr := h.values.value (hdue _) (Or.inr (hdue _)) (fun _ _ => hdue _) attr
  ceilings job attr := h.ceilings.ceiling (hdue _) attr

/-- The catalog of a store is its catalog as long as no permission or attribute changes. -/
theorem Mirrors.Catalog.drift {catalog : GradedAccess.Catalog}
    (h : Mirrors.Catalog catalog store) (hdrift : Drift touched store store') :
    Mirrors.Catalog catalog store' where
  permissions := h.permissions.trans hdrift.permissions.symm
  guards guard id := by rw [h.guards, hdrift.permissions]
  attributes := h.attributes.trans hdrift.attributes.symm
  keys permission key id := by rw [h.keys, hdrift.attributes]

/-- Caches that are left alone stay in sync, up to what is touched. -/
theorem InSync.drift (h : caches.InSync due store) (hdrift : Drift touched store store') :
    caches.InSync (DueAfter due touched fun _ => False) store' where
  sound := hdrift.sound'
  kinds := hdrift.kinds h.kinds
  catalog := h.catalog.drift hdrift
  roles := (h.roles.drift hdrift).mono fun _ hdue => hdue.imp_right fun hdue => ⟨hdue, id⟩
  grants := h.grants.after hdrift fun _ => .kept id False.elim fun _ => rfl
  values := h.values.after hdrift fun _ => .kept id False.elim (fun _ _ => id) fun _ => rfl
  ceilings := h.ceilings.after hdrift fun _ => .kept id fun _ => rfl

end Caches

end GradedAccess
