import GradedAccess.Proofs.Registry
import GradedAccess.Proofs.Store.Shared

/-!
# Enrolling permissions

The first half of an enrolment goes through the declared permissions and creates the ones whose
guards are not there.  It looks guards up in a table that is filled from a listing and then kept up
to date, and the invariant is that this table leads from each guard of the store to the permission
that has it (`Lead`).  What becomes of the store then (`createPermissions_ok`) is that the
permissions it had stay, that those that are new are declared, and that all that are declared are
there.
-/

namespace GradedAccess

/-- The row of a declared permission under a number. -/
def Definition.row (definition : Definition) (id : PermissionId) : Permission :=
  ⟨id, definition.category, definition.name, definition.guard, definition.order⟩

namespace MemoryStore

variable {store store' : MemoryStore} {limit : Duration}

/-! ## A store that only the engine uses -/

theorem evolves_fetch {α : Type} (limit : Duration) (loading : String) (request : Request α) :
    Fetch.Relates Evolves ((source limit).fetch loading request) :=
  fun store => evolves_answer request store

/-- Everything a loader asks of a store leaves a later state of the store. -/
theorem respects_evolves (limit : Duration) : (source limit).Respects Evolves where
  refl := .refl
  trans _ _ _ h h' := h.trans h'
  read loading request _ := evolves_fetch limit loading request

/-- A program that was run has left a later state of the store. -/
theorem evolves_of_run {α : Type} {fetch : Fetch MemoryStore α} {result : Except Fault α}
    (hevolves : Fetch.Relates Evolves fetch) (hrun : fetch store = (result, store')) :
    store.Evolves store' := by
  have hafter := hevolves store
  rwa [hrun] at hafter

/-- Whether a permission of a store has a guard. -/
def HasGuard (store : MemoryStore) (guard : String) (id : PermissionId) : Prop :=
  ∃ row, store.permissions[id]? = some row ∧ row.guard = guard

/-- The store with a declared permission filed under the next number. -/
def withPermission (store : MemoryStore) (definition : Definition) : MemoryStore :=
  { store.advance with
    permissions := store.permissions.insert store.nextId (definition.row store.nextId) }

/-- A declared permission that is created has the next number, and is filed under it. -/
theorem createPermission_eq_ok {definition : Definition} {row : Permission}
    (h : store.createPermission ⟨definition.category, definition.name, definition.order⟩ =
      (.ok row, store')) :
    row = definition.row store.nextId ∧ store' = store.withPermission definition := by
  rw [createPermission] at h
  cases hmake : Permission.make? store.nextId definition.category definition.name
      definition.order with
  | error fault =>
    rw [hmake] at h
    cases h
  | ok made =>
    rw [hmake] at h
    dsimp only at h
    split at h
    · cases h
    · cases h
      rw [Permission.make?] at hmake
      split at hmake
      · cases hmake
      · obtain rfl := Except.ok.inj hmake
        exact ⟨rfl, rfl⟩

theorem size_withPermission {definition : Definition} (hid : store.nextId ∉ store.permissions) :
    (store.withPermission definition).permissions.size = store.permissions.size + 1 :=
  Std.ExtTreeMap.size_insert.trans (if_neg hid)

end MemoryStore

namespace Enrolment

variable {store store' : MemoryStore} {limit : Duration} {guards guards' : Guards}
variable {definitions : List Definition} {count count' : Nat}

/-- Whether a table leads from each guard of a store to the permission that has it. -/
def Lead (guards : Guards) (store : MemoryStore) : Prop :=
  ∀ (guard : String) (id : PermissionId), guards[guard]? = some id ↔ store.HasGuard guard id

/-- The permissions of a store by their guards. -/
def guardsOf (store : MemoryStore) : Guards :=
  .ofList (store.permissions.values.map fun row => (row.guard, row.id))

/-- A table filled from all permissions leads to them. -/
theorem lead_guardsOf (hsound : store.Sound) : Lead (guardsOf store) store := by
  intro guard id
  have hdistinct : (store.permissions.values.map fun row => (row.guard, row.id)).Pairwise
      fun a b => a.1 ≠ b.1 := by
    rw [values_eq_map_toList, List.map_map, List.pairwise_map]
    refine (PairTable.distinct_toList store.permissions).imp_of_mem ?_
    intro entry entry' hentry hentry' hne hguard
    rw [Std.ExtTreeMap.mem_toList_iff_getElem?_eq_some] at hentry hentry'
    exact hne (hsound.guard_once hentry hentry' hguard)
  rw [guardsOf, PairTable.getElem?_ofList_eq_some_iff hdistinct, List.mem_map]
  simp only [mem_values_iff, Prod.mk.injEq]
  constructor
  · rintro ⟨row, ⟨id', hrow⟩, rfl, rfl⟩
    exact ⟨row, hsound.permission_id hrow ▸ hrow, rfl⟩
  · rintro ⟨row, hrow, rfl⟩
    exact ⟨row, ⟨id, hrow⟩, rfl, hsound.permission_id hrow⟩

/-- A permission that is created goes into the table under its guard. -/
theorem Lead.insert (h : Lead guards store) {definition : Definition}
    (hguard : definition.guard ∉ guards) (hid : store.nextId ∉ store.permissions) :
    Lead (guards.insert definition.guard store.nextId) (store.withPermission definition) := by
  intro guard id
  constructor
  · intro hfound
    rcases getElem?_insert_cases hfound with ⟨rfl, rfl⟩ | ⟨-, hfound⟩
    · exact ⟨_, Std.ExtTreeMap.getElem?_insert_self, rfl⟩
    · obtain ⟨other, hother, rfl⟩ := (h guard id).mp hfound
      have hne : id ≠ store.nextId := by
        rintro rfl
        exact hid (mem_iff_exists.mpr ⟨other, hother⟩)
      exact ⟨other, (getElem?_insert_of_ne _ _ hne).trans hother, rfl⟩
  · rintro ⟨other, hother, rfl⟩
    rcases getElem?_insert_cases hother with ⟨rfl, rfl⟩ | ⟨-, hother⟩
    · exact Std.ExtTreeMap.getElem?_insert_self
    · have hfound := (h other.guard id).mpr ⟨other, hother, rfl⟩
      have hne : other.guard ≠ definition.guard := by
        intro heq
        exact hguard (heq ▸ mem_iff_exists.mpr ⟨id, hfound⟩)
      exact (getElem?_insert_of_ne _ _ hne).trans hfound

/-- What creating the missing ones of some declared permissions makes of a store. -/
structure Adds (definitions : List Definition) (store store' : MemoryStore) : Prop where
  /-- Nothing but the permissions changes. -/
  frame : store' = { store with permissions := store'.permissions, next := store'.next }
  kept : ∀ ⦃id : PermissionId⦄ ⦃row : Permission⦄, store.permissions[id]? = some row →
    store'.permissions[id]? = some row
  new : ∀ ⦃id : PermissionId⦄ ⦃row : Permission⦄, store'.permissions[id]? = some row →
    store.permissions[id]? = some row ∨ ∃ definition ∈ definitions, row = definition.row id
  there : ∀ definition ∈ definitions, ∃ id, store'.HasGuard definition.guard id

/-- A permission that is there already is passed over. -/
theorem Adds.skip (h : Adds definitions store store') {definition : Definition} {id : PermissionId}
    {row : Permission} (hrow : store.permissions[id]? = some row)
    (hguard : row.guard = definition.guard) : Adds (definition :: definitions) store store' where
  frame := h.frame
  kept := h.kept
  new id' row' hrow' := by
    rcases h.new hrow' with hbefore | ⟨other, hother, heq⟩
    · exact Or.inl hbefore
    · exact Or.inr ⟨other, List.mem_cons_of_mem _ hother, heq⟩
  there := List.forall_mem_cons.mpr ⟨⟨id, row, h.kept hrow, hguard⟩, h.there⟩

/-- A permission that is not there is created first. -/
theorem Adds.create {definition : Definition} (hid : store.nextId ∉ store.permissions)
    (h : Adds definitions (store.withPermission definition) store') :
    Adds (definition :: definitions) store store' where
  frame := h.frame
  kept id row hrow := by
    have hne : id ≠ store.nextId := by
      rintro rfl
      exact hid (mem_iff_exists.mpr ⟨row, hrow⟩)
    exact h.kept ((getElem?_insert_of_ne _ _ hne).trans hrow)
  new id row hrow := by
    rcases h.new hrow with hbetween | ⟨other, hother, heq⟩
    · rcases getElem?_insert_cases hbetween with ⟨rfl, rfl⟩ | ⟨-, hbefore⟩
      · exact Or.inr ⟨definition, List.mem_cons_self, rfl⟩
      · exact Or.inl hbefore
    · exact Or.inr ⟨other, List.mem_cons_of_mem _ hother, heq⟩
  there := List.forall_mem_cons.mpr
    ⟨⟨_, _, h.kept Std.ExtTreeMap.getElem?_insert_self, rfl⟩, h.there⟩

/-- **The loop over the declared permissions.**  What is created is counted, and the table leads to
the permissions of the store that is left. -/
theorem createPermissions_ok (hsound : store.Sound) (hlead : Lead guards store)
    (hrun : createPermissions (MemoryStore.source limit) guards count definitions store =
      (.ok (guards', count'), store')) (hroom : store'.next ≤ UInt64.size) :
    Lead guards' store' ∧ Adds definitions store store' ∧
      store'.permissions.size + count = store.permissions.size + count' := by
  induction definitions generalizing guards count store with
  | nil =>
    cases hrun
    exact ⟨hlead, ⟨rfl, fun _ _ h => h, fun _ _ h => Or.inl h, nofun⟩, rfl⟩
  | cons definition definitions ih =>
    rw [createPermissions] at hrun
    split at hrun
    · next hcontains =>
      obtain ⟨hlead', hadds, hsize⟩ := ih hsound hlead hrun
      obtain ⟨id, hfound⟩ := mem_iff_exists.mp hcontains
      obtain ⟨row, hrow, hguard⟩ := (hlead _ id).mp hfound
      exact ⟨hlead', hadds.skip hrow hguard, hsize⟩
    · next hcontains =>
      obtain ⟨created, between, hcreate, hrest⟩ := Fetch.bind_eq_ok_iff.mp hrun
      have hevolves := (MemoryStore.respects_evolves limit).createPermissions
        (MemoryStore.evolves_fetch limit) (guards.insert definition.guard created.id) (count + 1)
        definitions
      have hbetween := Nat.le_trans (MemoryStore.evolves_of_run hevolves hrest).next_le hroom
      have hsound' := (MemoryStore.evolves_of_run (MemoryStore.evolves_fetch _ _ _) hcreate).sound
        hsound hbetween
      rw [MemoryStore.fetch_source, MemoryStore.answer] at hcreate
      obtain ⟨rfl, rfl⟩ := MemoryStore.createPermission_eq_ok hcreate
      have hid : store.nextId ∉ store.permissions :=
        MemoryStore.nextId_notMem hsound.permission_given hbetween
      obtain ⟨hlead', hadds, hsize⟩ := ih hsound' (hlead.insert hcontains hid) hrest
      rw [MemoryStore.size_withPermission hid] at hsize
      exact ⟨hlead', hadds.create hid, by omega⟩

end Enrolment

end GradedAccess
