import GradedAccess.Reconcile
import GradedAccess.Role

/-!
# The role index

The cached roles, found in two ways: by their number (`roles`), and by job and grade (`slots`).
An access check walks the second way.  The roles whose rows count for a grade of a job are its
`chain`: those of the same job with the same or a lower grade, lowest first.

The two tables are kept together by `upsert`, `remove`, `replaceJob` and `replaceAll`.  A role
that moves is unlinked from the slot it leaves, unless another role has taken that slot meanwhile.
A role whose slot is taken over by another stays in `roles` without a slot; it is called displaced
and takes no part in any chain.

If several rows claim the same slot, `replaceJob` lets the lowest number have it and drops the
other rows; `upsert` lets the latest have it.

`slots` says what is found in each slot.  How the slots of a job are stored together, and when a job
without roles ceases to be listed, is the subject of `LadderIndex`, which is read in the same ways
with the same results.
-/

namespace GradedAccess

open Std (ExtTreeMap ExtTreeSet)

/-- The cached roles. -/
structure RoleIndex where
  roles : ExtTreeMap RoleId Role := ∅
  slots : PairTable String Grade RoleId := ∅
  deriving DecidableEq

namespace RoleIndex

/-! ## Lookups -/

/-- The cached role of a number. -/
def role (index : RoleIndex) (id : RoleId) : Option Role := index.roles[id]?

/-- The number of the role in a slot. -/
def roleId (index : RoleIndex) (job : String) (grade : Grade) : Option RoleId :=
  index.slots[(job, grade)]?

/-- The job of a cached role. -/
def jobOf (index : RoleIndex) (id : RoleId) : Option String := (index.role id).map (·.job)

/-- The roles that count for a grade of a job, lowest grade first. -/
def chain (index : RoleIndex) (job : String) (grade : Grade) : List RoleId :=
  (index.slots.row job).filterMap fun slot => if slot.1 ≤ grade then some slot.2 else none

/-- The roles in the slots of a job, lowest grade first. -/
def jobRoles (index : RoleIndex) (job : String) : List RoleId :=
  (index.slots.row job).map (·.2)

/-- The jobs with a role in a slot, in ascending order. -/
def jobs (index : RoleIndex) : List String := index.slots.firsts

/-- The number of cached roles, displaced ones included. -/
def size (index : RoleIndex) : Nat := index.roles.size

/-- A chain holds the roles in the slots of its job up to its grade. -/
theorem mem_chain_iff {index : RoleIndex} {job : String} {grade : Grade} {id : RoleId} :
    id ∈ index.chain job grade ↔ ∃ own ≤ grade, index.roleId job own = some id := by
  simp only [chain, List.mem_filterMap, Option.ite_none_right_eq_some, Option.some.injEq,
    Prod.exists, PairTable.mem_row_iff, roleId]
  constructor
  · rintro ⟨own, _, hrow, hle, rfl⟩
    exact ⟨own, hle, hrow⟩
  · rintro ⟨own, hle, hrow⟩
    exact ⟨own, id, hrow, hle, rfl⟩

/-- The jobs are those with a role in a slot. -/
theorem mem_jobs_iff {index : RoleIndex} {job : String} :
    job ∈ index.jobs ↔ ∃ grade id, index.roleId job grade = some id := by
  simp only [jobs, PairTable.mem_firsts_iff, roleId, ← Option.isSome_iff_exists,
    ExtTreeMap.isSome_getElem?_iff_mem]

/-- The roles of a job are those in its slots. -/
theorem mem_jobRoles_iff {index : RoleIndex} {job : String} {id : RoleId} :
    id ∈ index.jobRoles job ↔ ∃ grade, index.roleId job grade = some id := by
  simp only [jobRoles, List.mem_map, Prod.exists, PairTable.mem_row_iff, roleId, exists_eq_right]

/-! ## Single roles -/

/-- Takes a role out of the slot its row names, if it is the one that is there. -/
def unlink (index : RoleIndex) (row : Role) : RoleIndex :=
  if index.roleId row.job row.grade = some row.id then
    { index with slots := index.slots.erase (row.job, row.grade) }
  else index

/-- Unlinks the earlier row of a role that has moved. -/
def unlinkMoved (index : RoleIndex) (earlier : Option Role) (moved : Role → Bool) : RoleIndex :=
  match earlier with
  | some row => if moved row then index.unlink row else index
  | none => index

/-- Puts a role into the slot its row names, and nowhere else. -/
def upsert (index : RoleIndex) (row : Role) : RoleIndex :=
  let held := { index with roles := index.roles.insert row.id row }
  let unlinked := held.unlinkMoved (index.role row.id)
    fun earlier => earlier.job ≠ row.job || earlier.grade ≠ row.grade
  { unlinked with slots := unlinked.slots.insert (row.job, row.grade) row.id }

/-- Drops a role. -/
def remove (index : RoleIndex) (id : RoleId) : RoleIndex :=
  match index.role id with
  | some row => unlink { index with roles := index.roles.erase id } row
  | none => index

@[simp] theorem role_unlink (index : RoleIndex) (row : Role) (id : RoleId) :
    (index.unlink row).role id = index.role id := by
  unfold unlink
  split <;> rfl

/-- Emptying a slot leaves the others as they are. -/
theorem roleId_erase (index : RoleIndex) (job job' : String) (grade grade' : Grade) :
    roleId { index with slots := index.slots.erase (job', grade') } job grade =
      if job = job' ∧ grade = grade' then none else index.roleId job grade := by
  simp only [roleId, ExtTreeMap.getElem?_erase, Std.LawfulEqOrd.compare_eq_iff_eq, Prod.mk.injEq,
    @eq_comm _ job', @eq_comm _ grade']

/-- Unlinking a role empties the slot it has, and no other. -/
theorem roleId_unlink (index : RoleIndex) (row : Role) (job : String) (grade : Grade) :
    (index.unlink row).roleId job grade =
      if job = row.job ∧ grade = row.grade ∧ index.roleId job grade = some row.id then none
      else index.roleId job grade := by
  unfold unlink
  split
  · next h =>
    rw [roleId_erase]
    by_cases hs : job = row.job ∧ grade = row.grade
    · rw [if_pos hs, if_pos ⟨hs.1, hs.2, by rw [hs.1, hs.2, h]⟩]
    · rw [if_neg hs, if_neg fun ht => hs ⟨ht.1, ht.2.1⟩]
  · next h =>
    rw [if_neg]
    rintro ⟨rfl, rfl, ht⟩
    exact h ht

@[simp] theorem role_unlinkMoved (index : RoleIndex) (earlier : Option Role) (moved : Role → Bool)
    (id : RoleId) : (index.unlinkMoved earlier moved).role id = index.role id := by
  unfold unlinkMoved
  split
  · split
    · rw [role_unlink]
    · rfl
  · rfl

/-- A role that is put into the index is found by its number, and so are the others. -/
theorem role_upsert (index : RoleIndex) (row : Role) (id : RoleId) :
    (index.upsert row).role id = if id = row.id then some row else index.role id := by
  calc (index.upsert row).role id
      = role { index with roles := index.roles.insert row.id row } id :=
        role_unlinkMoved { index with roles := index.roles.insert row.id row } (index.role row.id)
          (fun earlier => earlier.job ≠ row.job || earlier.grade ≠ row.grade) id
    _ = _ := by
        simp only [role, ExtTreeMap.getElem?_insert, Std.LawfulEqOrd.compare_eq_iff_eq,
          @eq_comm _ row.id]

/-- A role that is dropped is not found by its number any more, and the others are. -/
theorem role_remove (index : RoleIndex) (dropped id : RoleId) :
    (index.remove dropped).role id = if id = dropped then none else index.role id := by
  unfold remove
  split
  · rw [role_unlink]
    simp only [role, ExtTreeMap.getElem?_erase, Std.LawfulEqOrd.compare_eq_iff_eq,
      @eq_comm _ dropped]
  · next h =>
    split
    · next he => rw [he, h]
    · rfl

/-! ## The roles of a job -/

/-- The lowest number that claims each grade. -/
def lowest (rows : List Role) : ExtTreeMap Grade RoleId :=
  rows.foldl (fun held row =>
    match held[row.grade]? with
    | some id => if compare row.id id = .lt then held.insert row.grade row.id else held
    | none => held.insert row.grade row.id) ∅

/-- The rows of a job that have the lowest number of their grade. -/
def claims (job : String) (rows : List Role) : List Role :=
  let own := rows.filter (·.job = job)
  own.filter fun row => (lowest own)[row.grade]? = some row.id

/-- Holds a row of a job, and unlinks the role from a slot of another job. -/
def hold (job : String) (index : RoleIndex) (row : Role) : RoleIndex :=
  let held := { index with roles := index.roles.insert row.id row }
  held.unlinkMoved (index.role row.id) (·.job ≠ job)

/-- Gives the slots of a job to the lowest numbers of some rows. -/
def setSlots (index : RoleIndex) (job : String) (rows : List Role) : RoleIndex :=
  { index with slots :=
      PairTable.putRow (index.slots.dropRow job) job (lowest (rows.filter (·.job = job))).toList }

/-- Drops a role that still belongs to a job. -/
def dropFrom (job : String) (state : RoleIndex × Tally) (id : RoleId) : RoleIndex × Tally :=
  if state.1.jobOf id = some job then
    ({ state.1 with roles := state.1.roles.erase id }, state.2 + ⟨0, 1⟩)
  else state

/-- Replaces the roles of a job by those of some rows.  Rows of other jobs are left out. -/
def replaceJob (index : RoleIndex) (job : String) (rows : List Role) : RoleIndex × Tally :=
  let fresh := claims job rows
  let held := fresh.foldl (hold job) index
  let gone := (held.jobRoles job).filter fun id => !fresh.any (·.id = id)
  gone.foldl (dropFrom job) (held.setSlots job rows, ⟨fresh.length, 0⟩)

/-! ## All roles -/

/-- Replaces the roles of one job after another. -/
def replaceJobs (index : RoleIndex) (jobs : List String) (rows : List Role) : RoleIndex × Tally :=
  jobs.foldl (fun state job =>
    let replaced := state.1.replaceJob job rows
    (replaced.1, state.2 + replaced.2)) (index, 0)

/-- The cached roles that are in no slot. -/
def displaced (index : RoleIndex) : List RoleId :=
  index.roles.toList.filterMap fun entry =>
    if index.roleId entry.2.job entry.2.grade = some entry.1 then none else some entry.1

/-- Replaces all roles by those of some rows: empties some jobs, fills some others, each in the
order given, and drops whoever has no slot in the end. -/
def replaceAllIn (index : RoleIndex) (gone named : List String) (rows : List Role) :
    RoleIndex × Tally :=
  let emptied := index.replaceJobs gone []
  let filled := emptied.1.replaceJobs named rows
  let orphans := filled.1.displaced
  ({ filled.1 with roles := orphans.foldl (fun roles id => roles.erase id) filled.1.roles },
    emptied.2 + filled.2 + ⟨0, orphans.length⟩)

/-- Replaces all roles by those of some rows.  The jobs without rows are emptied before the others
are filled. -/
def replaceAll (index : RoleIndex) (rows : List Role) : RoleIndex × Tally :=
  let named := (ExtTreeSet.ofList (rows.map (·.job))).toList
  index.replaceAllIn (index.jobs.filter fun job => !named.contains job) named rows

end RoleIndex

end GradedAccess
