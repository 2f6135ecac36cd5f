import GradedAccess.Proofs.Store.Integrity

/-!
# What the store in memory lists

The listings of a store in memory, read off its tables.  The rows that a listing has for one role,
or for one job, are those of the table under it, whether the listing was asked for that owner or
for all; a listing for another owner has none.

The listed roles, permissions and attributes have distinct numbers, so a table that is filled from
such a listing is the table of the store again (`ofList_values`).
-/

namespace GradedAccess

open Std (ExtTreeMap LawfulEqOrd TransOrd)

theorem belongsTo_none {α : Type} [DecidableEq α] (owner : α) : belongsTo none owner = true := rfl

theorem belongsTo_some_iff {α : Type} [DecidableEq α] {asked owner : α} :
    belongsTo (some asked) owner = true ↔ owner = asked := decide_eq_true_iff

namespace PairTable

variable {α β γ ρ : Type} [Ord α] [Ord β] [TransOrd α] [TransOrd β] [DecidableEq α]

/-- The rows made of the entries of a table that belong to one owner are made of the rows under
that owner. -/
theorem filter_map_toList (table : PairTable α β γ) (make : α → β → γ → ρ) (owner : ρ → α)
    (howner : ∀ a b c, owner (make a b c) = a) (a : α) :
    (table.toList.map fun entry => make entry.1.1 entry.1.2 entry.2).filter (owner · = a) =
      (table.row a).map fun entry => make a entry.1 entry.2 := by
  rw [row]
  induction table.toList with
  | nil => rfl
  | cons entry entries ih =>
    rw [List.map_cons, List.filter_cons, List.filterMap_cons, howner, ih]
    by_cases h : entry.1.1 = a
    · simp [h]
    · simp [h]

/-- A listing for one owner holds that owner's rows and no others. -/
theorem filter_belongsTo (table : PairTable α β γ) (make : α → β → γ → ρ) (owner : ρ → α)
    (howner : ∀ a b c, owner (make a b c) = a) (asked : Option α) (a : α) :
    ((table.toList.map fun entry => make entry.1.1 entry.1.2 entry.2).filter
        fun row => belongsTo asked (owner row)).filter (owner · = a) =
      if belongsTo asked a then (table.row a).map fun entry => make a entry.1 entry.2 else [] := by
  rw [List.filter_filter]
  split
  · next h =>
    rw [← filter_map_toList table make owner howner]
    refine List.filter_congr fun row _ => ?_
    by_cases hrow : owner row = a
    · simp [hrow, h]
    · simp [hrow]
  · next h =>
    rw [List.filter_eq_nil_iff]
    intro row _ hrow
    rw [Bool.and_eq_true, decide_eq_true_eq] at hrow
    exact h (hrow.1 ▸ hrow.2)

end PairTable

namespace MemoryStore

variable {store : MemoryStore}

/-- The grants listed for a role. -/
theorem filter_listGrants (store : MemoryStore) (asked : Option RoleId) (role : RoleId) :
    (store.listGrants asked).filter (·.role = role) =
      if belongsTo asked role then
        (store.grants.row role).map fun entry => ⟨role, entry.1, entry.2⟩
      else [] :=
  PairTable.filter_belongsTo store.grants Grant.mk Grant.role (fun _ _ _ => rfl) asked role

/-- The values listed for a role. -/
theorem filter_listValues (store : MemoryStore) (asked : Option RoleId) (role : RoleId) :
    (store.listValues asked).filter (·.role = role) =
      if belongsTo asked role then
        (store.values.row role).map fun entry => ⟨role, entry.1, entry.2⟩
      else [] :=
  PairTable.filter_belongsTo store.values RoleValue.mk RoleValue.role (fun _ _ _ => rfl) asked role

/-- The ceilings listed for a job. -/
theorem filter_listCeilings (store : MemoryStore) (asked : Option String) (job : String) :
    (store.listCeilings asked).filter (·.job = job) =
      if belongsTo asked job then
        (store.ceilings.row job).map fun entry => ⟨job, entry.1, entry.2⟩
      else [] :=
  PairTable.filter_belongsTo store.ceilings Ceiling.mk Ceiling.job (fun _ _ _ => rfl) asked job

/-- A grant listed for a role is a grant of that role. -/
theorem role_of_mem_listGrants {role : RoleId} {row : Grant}
    (h : row ∈ store.listGrants (some role)) : row.role = role :=
  belongsTo_some_iff.mp (List.mem_filter.mp h).2

theorem mem_listValues {asked : Option RoleId} {row : RoleValue} :
    row ∈ store.listValues asked ↔
      store.values[(row.role, row.attr)]? = some row.value ∧ belongsTo asked row.role := by
  rw [listValues, List.mem_filter, List.mem_map]
  simp only [Prod.exists, ExtTreeMap.mem_toList_iff_getElem?_eq_some]
  refine and_congr_left fun _ => ⟨?_, fun h => ⟨row.role, row.attr, row.value, h, rfl⟩⟩
  rintro ⟨role, attr, value, hvalue, rfl⟩
  exact hvalue

theorem mem_listCeilings {asked : Option String} {row : Ceiling} :
    row ∈ store.listCeilings asked ↔
      store.ceilings[(row.job, row.attr)]? = some row.most ∧ belongsTo asked row.job := by
  rw [listCeilings, List.mem_filter, List.mem_map]
  simp only [Prod.exists, ExtTreeMap.mem_toList_iff_getElem?_eq_some]
  refine and_congr_left fun _ => ⟨?_, fun h => ⟨row.job, row.attr, row.most, h, rfl⟩⟩
  rintro ⟨job, attr, most, hmost, rfl⟩
  exact hmost

/-! ## Rows under their own numbers -/

section Values

variable {α ρ κ δ : Type} {cmp : α → α → Ordering} [Std.TransCmp cmp] [Std.LawfulEqCmp cmp]

/-- Whether something tells the rows of a table apart. -/
def TellsApart (table : ExtTreeMap α ρ cmp) (key : ρ → κ) : Prop :=
  ∀ ⦃a a' : α⦄ ⦃row row' : ρ⦄, table[a]? = some row → table[a']? = some row' →
    key row = key row' → a = a'

/-- Rows are listed with what tells them apart being distinct. -/
theorem distinct_values {table : ExtTreeMap α ρ cmp} {key : ρ → κ} (h : TellsApart table key) :
    table.values.Pairwise fun row row' => key row ≠ key row' := by
  rw [values_eq_map_toList, List.pairwise_map]
  refine (PairTable.distinct_toList table).imp_of_mem fun {entry entry'} hmem hmem' hne heq => ?_
  rw [ExtTreeMap.mem_toList_iff_getElem?_eq_some] at hmem hmem'
  exact hne (h hmem hmem' heq)

/-- A table filled from listed rows, by what tells them apart, holds what the rows say. -/
theorem getElem?_ofList_values {cmpKey : κ → κ → Ordering} [Std.TransCmp cmpKey]
    [Std.LawfulEqCmp cmpKey] [DecidableEq κ] {table : ExtTreeMap α ρ cmp} {key : ρ → κ}
    (h : TellsApart table key) (value : ρ → δ) {k : κ} {v : δ} :
    (ExtTreeMap.ofList (table.values.map fun row => (key row, value row)) cmpKey)[k]? = some v ↔
      ∃ (a : α) (row : ρ), table[a]? = some row ∧ key row = k ∧ value row = v := by
  have hdistinct : (table.values.map fun row => (key row, value row)).Pairwise
      fun x y => x.1 ≠ y.1 := List.pairwise_map.mpr (distinct_values h)
  rw [PairTable.getElem?_ofList_eq_some_iff hdistinct, List.mem_map]
  simp only [mem_values_iff, Prod.mk.injEq]
  constructor
  · rintro ⟨row, ⟨a, hrow⟩, rfl, rfl⟩
    exact ⟨a, row, hrow, rfl, rfl⟩
  · rintro ⟨a, row, hrow, rfl, rfl⟩
    exact ⟨row, ⟨a, hrow⟩, rfl, rfl⟩

/-- A table filled from the listed rows of a table is that table, if rows are filed under their
own numbers. -/
theorem ofList_values [DecidableEq α] {table : ExtTreeMap α ρ cmp} (key : ρ → α)
    (hkey : ∀ ⦃a : α⦄ ⦃row : ρ⦄, table[a]? = some row → key row = a) :
    ExtTreeMap.ofList (table.values.map fun row => (key row, row)) cmp = table := by
  have hapart : TellsApart table key := fun a a' row row' hrow hrow' heq => by
    rw [← hkey hrow, heq, hkey hrow']
  ext a row
  rw [getElem?_ofList_values hapart (fun row => row)]
  constructor
  · rintro ⟨a', row', hrow', rfl, rfl⟩
    rw [hkey hrow']
    exact hrow'
  · intro hrow
    exact ⟨a, row, hrow, hkey hrow, rfl⟩

end Values

theorem listRoles_none (store : MemoryStore) : store.listRoles none = store.roles.values :=
  List.filter_eq_self.mpr fun _ _ => rfl

theorem Sound.mem_values_roles (h : store.Sound) {row : Role} :
    row ∈ store.roles.values ↔ store.roles[row.id]? = some row := by
  rw [mem_values_iff]
  constructor
  · rintro ⟨id, hrow⟩
    rwa [h.role_id hrow]
  · intro hrow
    exact ⟨row.id, hrow⟩

/-- Listed roles have distinct numbers. -/
theorem Sound.distinct_roles (h : store.Sound) :
    store.roles.values.Pairwise fun row row' => row.id ≠ row'.id :=
  distinct_values fun id id' row row' hrow hrow' heq => by
    rw [← h.role_id hrow, heq, h.role_id hrow']

/-- Listed permissions have distinct numbers. -/
theorem Sound.distinct_permissions (h : store.Sound) :
    store.permissions.values.Pairwise fun row row' => row.id ≠ row'.id :=
  distinct_values fun id id' row row' hrow hrow' heq => by
    rw [← h.permission_id hrow, heq, h.permission_id hrow']

/-- Listed permissions have distinct guards. -/
theorem Sound.distinct_guards (h : store.Sound) :
    store.permissions.values.Pairwise fun row row' => row.guard ≠ row'.guard :=
  distinct_values fun _ _ _ _ hrow hrow' => h.guard_once hrow hrow'

/-- Listed roles do not share slots. -/
theorem Sound.slots_roles (h : store.Sound) : ∀ a ∈ store.roles.values, ∀ b ∈ store.roles.values,
    a.job = b.job ∧ a.grade = b.grade → a = b := by
  intro a ha b hb hslot
  rw [h.mem_values_roles] at ha hb
  rw [h.slot_once ha hb hslot, hb] at ha
  exact (Option.some.inj ha).symm

/-- The roles listed for a job are the roles of that job. -/
theorem Sound.mem_listRoles_some (h : store.Sound) {job : String} {row : Role} :
    row ∈ store.listRoles (some job) ↔ store.roles[row.id]? = some row ∧ row.job = job := by
  rw [listRoles, List.mem_filter, h.mem_values_roles]
  simp [belongsTo]

end MemoryStore

end GradedAccess
