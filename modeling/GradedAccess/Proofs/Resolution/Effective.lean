import GradedAccess.Proofs.Reload.Reached
import GradedAccess.Proofs.Replay.Events
import GradedAccess.Proofs.Resolution.Loaded

/-!
# The list of allowed permissions

`effective` lists what a grade of a job is allowed.  It starts from the grants along the chain,
whereas an access check starts from a guard, asks the catalog for a number, and walks down the chain
with it.  This file shows what the two have in common.

In any caches at all the list has exactly the cached permissions that resolve to allowed
(`mem_effective_iff`): a permission that resolves to allowed has a grant in the chain, so starting
from the grants misses none.  No permission is listed twice as long as permissions are cached under
their own numbers.

An access check agrees if the guard of a cached permission leads back to it.  Guards and
permissions are replaced together, from one listing, but each table keeps the last row of a key on
its own.  So a guard can lead elsewhere in two ways: another cached permission has the same guard,
or a row that lost its number to a later one has left its guard behind.  `effective_agrees` excludes
the first by its hypothesis, and the second where no number is listed twice.  `relisted` is the
second.  A store in memory lists no number and no guard twice, so in a session over one neither can
happen (`effective_in_session`).
-/

namespace GradedAccess

open Std (ExtTreeSet)

/-! ## Guards that differ -/

/-- Whether no two permissions of a catalog have the same guard. -/
def Catalog.GuardsDiffer (catalog : Catalog) : Prop :=
  ∀ id id' row row', catalog.permission id = some row → catalog.permission id' = some row' →
    row.guard = row'.guard → id = id'

/-- Guards differ if they do along the list of all permissions. -/
theorem Catalog.guardsDiffer_of_nodup {catalog : Catalog}
    (h : (catalog.permissions.toList.map (·.2.guard)).Nodup) : catalog.GuardsDiffer := by
  intro id id' row row' hrow hrow' hguard
  have hmem : (id, row) ∈ catalog.permissions.toList :=
    Std.ExtTreeMap.mem_toList_iff_getElem?_eq_some.mpr hrow
  have hmem' : (id', row') ∈ catalog.permissions.toList :=
    Std.ExtTreeMap.mem_toList_iff_getElem?_eq_some.mpr hrow'
  exact congrArg Prod.fst (List.inj_on_of_nodup_map h hmem hmem' hguard)

/-- If no number was listed twice and guards differ, every guard leads to the permission that has
it. -/
theorem Catalog.ListedFrom.permissionId_guard {catalog : Catalog} {rows : List Permission}
    (h : catalog.ListedFrom rows) (hids : rows.Pairwise fun a b => a.id ≠ b.id)
    (hguards : catalog.GuardsDiffer) {id : PermissionId} {row : Permission}
    (hrow : catalog.permission id = some row) : catalog.permissionId row.guard = some id := by
  obtain ⟨other, hmem, hguard, hlast⟩ := h.exists_permissionId hrow
  have hother := h.permission_of_mem hids hmem
  rw [hlast, hguards _ _ _ _ hother hrow hguard]

/-- Guards differ if no guard was listed twice. -/
theorem Catalog.ListedFrom.guardsDiffer {catalog : Catalog} {rows : List Permission}
    (h : catalog.ListedFrom rows) (hguards : rows.Pairwise fun a b => a.guard ≠ b.guard) :
    catalog.GuardsDiffer := by
  intro id id' row row' hrow hrow' hguard
  have hnodup : (rows.map (·.guard)).Nodup := List.pairwise_map.mpr hguards
  obtain ⟨hmem, rfl⟩ := h.of_permission hrow
  obtain ⟨hmem', rfl⟩ := h.of_permission hrow'
  rw [List.inj_on_of_nodup_map hnodup hmem hmem' hguard]

/-! ## The order of the list -/

/-- Permissions are shown by their order numbers, and those with the same one by their guards. -/
def Permission.compareShown : Permission → Permission → Ordering :=
  compareLex (compareOn Permission.order) (compareOn Permission.guard)

instance : Std.TransCmp Permission.compareShown :=
  inferInstanceAs (Std.TransCmp (compareLex (compareOn Permission.order)
    (compareOn Permission.guard)))

namespace Caches

variable {caches : Caches} {job : String} {grade : Grade}

theorem shownBefore_eq (a b : Permission) : shownBefore a b = (a.compareShown b).isLE := by
  show (a.compareShown b != .gt) = (a.compareShown b).isLE
  cases a.compareShown b <;> rfl

theorem shownBefore_trans (a b c : Permission) (hab : shownBefore a b = true)
    (hbc : shownBefore b c = true) : shownBefore a c = true := by
  rw [shownBefore_eq] at *
  exact Std.TransCmp.isLE_trans hab hbc

theorem shownBefore_total (a b : Permission) : (shownBefore a b || shownBefore b a) = true := by
  rw [shownBefore_eq, shownBefore_eq, Bool.or_eq_true, or_iff_not_imp_left]
  intro hnot
  rw [Std.OrientedCmp.lt_of_not_isLE hnot]
  rfl

/-- Of permissions with different guards one is shown strictly before the other. -/
theorem lt_of_shownBefore {a b : Permission} (h : shownBefore a b = true)
    (hguard : a.guard ≠ b.guard) : a.order < b.order ∨ a.order = b.order ∧ a.guard < b.guard := by
  rw [shownBefore_eq, Ordering.isLE_iff_eq_lt_or_eq_eq] at h
  rcases h with hlt | heq
  · rcases Ordering.then_eq_lt.mp hlt with horder | ⟨horder, hbelow⟩
    · exact Or.inl (Std.compare_eq_lt.mp horder)
    · exact Or.inr ⟨Std.compare_eq_iff_eq.mp horder, compareOfLessAndEq_eq_lt.mp hbelow⟩
  · exact absurd (Std.compare_eq_iff_eq.mp (Ordering.then_eq_eq.mp heq).2) hguard

/-! ## What is listed -/

/-- A permission that resolves to allowed has a grant in the chain. -/
theorem exists_grant_of_resolve {id : PermissionId} (h : caches.resolve job grade id = true) :
    ∃ role ∈ caches.roles.chain job grade, ∃ allowed, caches.grant role id = some allowed := by
  unfold resolve at h
  cases hheard : (caches.roles.chain job grade).reverse.findSome? (caches.grant · id) with
  | none =>
    rw [hheard] at h
    cases h
  | some allowed =>
    obtain ⟨role, hmem, hgrant⟩ := List.exists_of_findSome?_eq_some hheard
    exact ⟨role, List.mem_reverse.mp hmem, allowed, hgrant⟩

/-- Exactly the cached permissions that resolve to allowed are listed. -/
theorem mem_effective_iff {row : Permission} : row ∈ caches.effective job grade ↔
    ∃ id, caches.catalog.permission id = some row ∧ caches.resolve job grade id = true := by
  rw [effective, List.mem_mergeSort, List.mem_filterMap]
  simp only [List.mem_filter, ExtTreeSet.mem_toList, ExtTreeSet.mem_ofList, List.contains_iff_mem]
  constructor
  · rintro ⟨id, ⟨-, hresolve⟩, hrow⟩
    exact ⟨id, hrow, hresolve⟩
  · rintro ⟨id, hrow, hresolve⟩
    obtain ⟨role, hmem, allowed, hgrant⟩ := exists_grant_of_resolve hresolve
    refine ⟨id, ⟨List.mem_flatMap.mpr ⟨role, hmem, ?_⟩, hresolve⟩, hrow⟩
    exact List.mem_map.mpr ⟨(id, allowed), PairTable.mem_row_iff.mpr hgrant, rfl⟩

section Own

variable (hown : ∀ id row, caches.catalog.permission id = some row → row.id = id)
include hown

/-- Permissions that are cached under their own numbers are listed once. -/
theorem nodup_effective : (caches.effective job grade).Nodup := by
  rw [effective, (List.mergeSort_perm _ _).nodup_iff]
  refine List.Nodup.filterMap (fun id id' row hrow hrow' => ?_) (List.Nodup.filter _ ?_)
  · rw [← hown id row hrow, hown id' row hrow']
  · exact nodup_toList _

/-- If also their guards differ, they are listed in strictly ascending order. -/
theorem pairwise_effective (hguards : caches.catalog.GuardsDiffer) :
    (caches.effective job grade).Pairwise fun a b =>
      a.order < b.order ∨ a.order = b.order ∧ a.guard < b.guard := by
  have hsorted : (caches.effective job grade).Pairwise fun a b => shownBefore a b = true :=
    List.pairwise_mergeSort shownBefore_trans shownBefore_total _
  refine (hsorted.and (nodup_effective hown)).imp_of_mem fun {a b} ha hb hboth => ?_
  refine lt_of_shownBefore hboth.1 fun hguard => hboth.2 ?_
  obtain ⟨id, hrow, -⟩ := mem_effective_iff.mp ha
  obtain ⟨id', hrow', -⟩ := mem_effective_iff.mp hb
  rw [hguards _ _ _ _ hrow hrow' hguard] at hrow
  exact Option.some.inj (hrow.symm.trans hrow')

/-- Where the guard of a cached permission leads to it, it is listed for those whose access check
succeeds. -/
theorem mem_effective_iff_can {id : PermissionId} {row : Permission}
    (hrow : caches.catalog.permission id = some row)
    (hleads : caches.catalog.permissionId row.guard = some id) {identity : Identity}
    (hsuper : identity.superuser = false) {category name : String}
    (hguard : guardName category name = row.guard) :
    row ∈ caches.effective identity.job identity.grade ↔
      caches.can identity category name = true := by
  have hcan : caches.can identity category name =
      caches.resolve identity.job identity.grade id := by
    rw [can, hsuper, Bool.false_or, permissionId, hguard, hleads, Option.any_some]
  rw [hcan, mem_effective_iff]
  constructor
  · rintro ⟨id', hrow', hresolve⟩
    rwa [← hown id row hrow, hown id' row hrow']
  · intro hresolve
    exact ⟨id, hrow, hresolve⟩

end Own

/-- Whatever loaders do, permissions are cached under their own numbers. -/
theorem id_of_permission (calls : List LoaderCall) (id : PermissionId) (row : Permission)
    (h : (reached calls).catalog.permission id = some row) : row.id = id := by
  obtain ⟨rows, hlisted, -⟩ := exists_listing (fun _ => True) trivial
    fun made (_ : made ∈ calls) _ _ _ => trivial
  exact (hlisted.of_permission h).2

/-- **The list and the access checks agree.**  Let loaders have brought caches into a state in which
guards differ.  Then the list for a grade of a job has cached permissions only, each of them once,
and is strictly ascending by order number and guard.  And if no store has listed a number twice, a
cached permission is listed exactly when the access check succeeds for whoever has that job and
grade, under any category and name that make its guard. -/
theorem effective_agrees (calls : List LoaderCall)
    (hguards : (reached calls).catalog.GuardsDiffer) (job : String) (grade : Grade) :
    ((∀ made ∈ calls, made.Lists fun rows => rows.Pairwise fun a b => a.id ≠ b.id) →
      ∀ id row, (reached calls).catalog.permission id = some row →
      ∀ identity : Identity, identity.superuser = false → identity.job = job →
        identity.grade = grade → ∀ category name, guardName category name = row.guard →
          (row ∈ (reached calls).effective job grade ↔
            (reached calls).can identity category name = true)) ∧
    (∀ row ∈ (reached calls).effective job grade,
      (reached calls).catalog.permission row.id = some row) ∧
    ((reached calls).effective job grade).Nodup ∧
    ((reached calls).effective job grade).Pairwise fun a b =>
      a.order < b.order ∨ a.order = b.order ∧ a.guard < b.guard := by
  have hown := id_of_permission calls
  refine ⟨?_, fun row hmem => ?_, nodup_effective hown, pairwise_effective hown hguards⟩
  · rintro honce id row hrow identity hsuper rfl rfl category name hguard
    obtain ⟨rows, hlisted, hids⟩ := exists_listing _ List.Pairwise.nil honce
    have hleads := hlisted.permissionId_guard hids hguards hrow
    exact mem_effective_iff_can hown hrow hleads hsuper hguard
  · obtain ⟨id, hrow, -⟩ := mem_effective_iff.mp hmem
    rwa [hown id row hrow]

/-- An officer of a squad is listed what the access check allows. -/
theorem squad_effective_agrees :
    let calls : List LoaderCall := [⟨ListStore.source 0, ListStore.squad, .reload .all⟩]
    let row : Permission := ⟨⟨1⟩, "citizens", "List", "citizens-list", 0⟩
    let officer : Identity := { user := 1, job := "police", grade := 5 }
    (reached calls).catalog.GuardsDiffer ∧
      (∀ made ∈ calls, made.Lists fun rows => rows.Pairwise fun a b => a.id ≠ b.id) ∧
      (reached calls).catalog.permission ⟨1⟩ = some row ∧
      (reached calls).can officer "citizens" "List" = true ∧
      row ∈ (reached calls).effective "police" 5 := by
  intro calls row officer
  have hguards : (reached calls).catalog.GuardsDiffer :=
    Catalog.guardsDiffer_of_nodup (by decide +kernel)
  have honce : ∀ made ∈ calls, made.Lists fun rows => rows.Pairwise fun a b => a.id ≠ b.id := by
    intro made hmem
    obtain rfl := List.mem_singleton.mp hmem
    rintro rows - ⟨⟩
    exact List.pairwise_singleton _ _
  have hrow : (reached calls).catalog.permission ⟨1⟩ = some row := by decide +kernel
  have hcan : (reached calls).can officer "citizens" "List" = true := by decide +kernel
  have hagree := (effective_agrees calls hguards "police" 5).1 honce ⟨1⟩ row hrow officer rfl rfl
    rfl "citizens" "List" (by decide +kernel)
  exact ⟨hguards, honce, hrow, hcan, hagree.mpr hcan⟩

end Caches

/-- A store that lists the number two twice.  The later row keeps the number, and the earlier one
leaves its guard to it, which is the guard of the first permission. -/
def ListStore.relisted : ListStore where
  rows := {
    permissions := [⟨⟨1⟩, "citizens", "List", "citizens-list", 0⟩,
      ⟨⟨2⟩, "citizens", "List", "citizens-list", 0⟩, ⟨⟨2⟩, "citizens", "Edit", "citizens-edit", 0⟩]
    roles := [⟨⟨3⟩, "police", 5⟩]
    grants := [⟨⟨3⟩, ⟨1⟩, true⟩] }

/-- Guards differ in what has been loaded of it, but the first permission is listed for an officer
who fails the access check. -/
theorem Caches.relisted_disagrees :
    let caches := reached [⟨ListStore.source 0, ListStore.relisted, .reload .all⟩]
    let row : Permission := ⟨⟨1⟩, "citizens", "List", "citizens-list", 0⟩
    let officer : Identity := { user := 1, job := "police", grade := 5 }
    caches.catalog.GuardsDiffer ∧ caches.catalog.permission ⟨1⟩ = some row ∧
      guardName "citizens" "List" = row.guard ∧ officer.superuser = false ∧
      row ∈ caches.effective "police" 5 ∧ caches.can officer "citizens" "List" = false := by
  intro caches row officer
  refine ⟨Catalog.guardsDiffer_of_nodup ?_, ?_, ?_, rfl, ?_, ?_⟩
  all_goals decide +kernel

/-! ## In a session -/

namespace Unsteady

variable {limit : Duration} {steps : List Step}

/-- The catalog of a session is that of a listing without repetitions. -/
theorem exists_listing (hroom : (reached limit steps).store.next ≤ UInt64.size) :
    ∃ rows, (reached limit steps).caches.catalog.ListedFrom rows ∧
      (rows.Pairwise fun a b => a.id ≠ b.id) ∧ rows.Pairwise fun a b => a.guard ≠ b.guard := by
  induction steps using List.reverseRecOn with
  | nil => exact ⟨[], Catalog.listedFrom_nil, List.Pairwise.nil, List.Pairwise.nil⟩
  | append_singleton steps last ih =>
    rw [reached_concat] at hroom ⊢
    have hbefore : (reached limit steps).store.next ≤ UInt64.size :=
      Nat.le_trans (lasts_step limit _ last).ages.next_le hroom
    cases last with
    | operation op => exact ih hbefore
    | call call turns =>
      let made : LoaderCall := ⟨source limit, ⟨(reached limit steps).store, turns⟩, call⟩
      refine made.exists_listing_after (fun rows _ hrows => ?_) (ih hbefore)
      have hsound := (lasts_reached limit steps).ages.sound MemoryStore.sound_empty hbefore
      rw [permissions_of_fetchAll hrows]
      exact ⟨hsound.distinct_permissions, hsound.distinct_guards⟩

/-- In a session the list and the access checks agree, and the list is strictly ascending, whatever
has happened. -/
theorem effective_in_session (hroom : (reached limit steps).store.next ≤ UInt64.size)
    {identity : Identity} (hsuper : identity.superuser = false) :
    let caches := (reached limit steps).caches
    (∀ id row, caches.catalog.permission id = some row → ∀ category name,
      guardName category name = row.guard →
        (row ∈ caches.effective identity.job identity.grade ↔
          caches.can identity category name = true)) ∧
    (caches.effective identity.job identity.grade).Pairwise fun a b =>
      a.order < b.order ∨ a.order = b.order ∧ a.guard < b.guard := by
  intro caches
  obtain ⟨rows, hlisted, hids, hguards⟩ := exists_listing hroom
  have hown : ∀ id row, caches.catalog.permission id = some row → row.id = id :=
    fun _ _ hrow => (hlisted.of_permission hrow).2
  have hdiffer : caches.catalog.GuardsDiffer := hlisted.guardsDiffer hguards
  refine ⟨fun id row hrow category name hguard => ?_, Caches.pairwise_effective hown hdiffer⟩
  have hleads := hlisted.permissionId_guard hids hdiffer hrow
  exact Caches.mem_effective_iff_can hown hrow hleads hsuper hguard

end Unsteady

end GradedAccess
