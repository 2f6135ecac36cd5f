import GradedAccess.RoleIndex

/-!
# The ladders of a job

`RoleIndex` says what is found in each slot.  This module says how the slots are stored.  A
`LadderIndex` has the roles by their number, and beside them one table in another: for each job a
ladder, which has the roles of the job by their grade.

Here a job can be listed without having a role, because its ladder may have lost its last rung.  So
whoever takes a rung away has to look whether the ladder is empty now, and to drop the job if it is:
`unlink` does so after every single rung, and `setLadder` drops the job of a ladder without rungs.
Nothing else keeps `jobs` from listing a job that has no roles any more.
-/

namespace GradedAccess

open Std (ExtTreeMap ExtTreeSet)

/-- The cached roles, and beside them the ladder of each job. -/
structure LadderIndex where
  roles : ExtTreeMap RoleId Role := ∅
  ladders : ExtTreeMap String (ExtTreeMap Grade RoleId) := ∅

namespace LadderIndex

/-! ## Lookups -/

/-- The cached role of a number. -/
def role (index : LadderIndex) (id : RoleId) : Option Role := index.roles[id]?

/-- The ladder of a job.  A job that is not listed has an empty one. -/
def ladder (index : LadderIndex) (job : String) : ExtTreeMap Grade RoleId :=
  (index.ladders[job]?).getD ∅

/-- The number of the role on a rung. -/
def roleId (index : LadderIndex) (job : String) (grade : Grade) : Option RoleId :=
  (index.ladders[job]?).bind fun ladder => ladder[grade]?

/-- The job of a cached role. -/
def jobOf (index : LadderIndex) (id : RoleId) : Option String := (index.role id).map (·.job)

/-- The roles that count for a grade of a job, lowest grade first. -/
def chain (index : LadderIndex) (job : String) (grade : Grade) : List RoleId :=
  (index.ladder job).toList.filterMap fun rung => if rung.1 ≤ grade then some rung.2 else none

/-- The roles on the ladder of a job, lowest grade first. -/
def jobRoles (index : LadderIndex) (job : String) : List RoleId := index.chain job Int32.maxValue

/-- The jobs that have a ladder, in ascending order. -/
def jobs (index : LadderIndex) : List String := index.ladders.keys

/-- The number of cached roles. -/
def size (index : LadderIndex) : Nat := index.roles.size

/-! ## Single roles -/

/-- Clears the rung that a row names, if its role is the one that is there. -/
def clearRung (index : LadderIndex) (row : Role) : LadderIndex :=
  { index with ladders := index.ladders.modify row.job fun ladder =>
      if ladder[row.grade]? = some row.id then ladder.erase row.grade else ladder }

/-- Drops a job whose ladder is empty. -/
def dropEmpty (index : LadderIndex) (job : String) : LadderIndex :=
  if (index.ladder job).isEmpty then { index with ladders := index.ladders.erase job } else index

/-- Takes a role off the rung its row names, and drops the job if no role is left on its ladder. -/
def unlink (index : LadderIndex) (row : Role) : LadderIndex :=
  (index.clearRung row).dropEmpty row.job

/-- Unlinks the earlier row of a role that has moved. -/
def unlinkMoved (index : LadderIndex) (earlier : Option Role) (moved : Role → Bool) : LadderIndex :=
  match earlier with
  | some row => if moved row then index.unlink row else index
  | none => index

/-- Puts a role on the rung its row names, and on no other.  A job without a ladder gets one. -/
def upsert (index : LadderIndex) (row : Role) : LadderIndex :=
  let held := { index with roles := index.roles.insert row.id row }
  let unlinked := held.unlinkMoved (index.role row.id)
    fun earlier => earlier.job ≠ row.job || earlier.grade ≠ row.grade
  { unlinked with ladders :=
      unlinked.ladders.insert row.job ((unlinked.ladder row.job).insert row.grade row.id) }

/-- Drops a role. -/
def remove (index : LadderIndex) (id : RoleId) : LadderIndex :=
  match index.role id with
  | some row => unlink { index with roles := index.roles.erase id } row
  | none => index

/-! ## The roles of a job -/

/-- Holds a row of a job, and unlinks the role from the ladder of another job. -/
def hold (job : String) (index : LadderIndex) (row : Role) : LadderIndex :=
  let held := { index with roles := index.roles.insert row.id row }
  held.unlinkMoved (index.role row.id) (·.job ≠ job)

/-- Gives a job another ladder.  A ladder without rungs drops the job. -/
def setLadder (index : LadderIndex) (job : String) (rungs : ExtTreeMap Grade RoleId) :
    LadderIndex :=
  { index with ladders :=
      if rungs.isEmpty then index.ladders.erase job else index.ladders.insert job rungs }

/-- Drops a role that still belongs to a job. -/
def dropFrom (job : String) (state : LadderIndex × Tally) (id : RoleId) : LadderIndex × Tally :=
  if state.1.jobOf id = some job then
    ({ state.1 with roles := state.1.roles.erase id }, state.2 + ⟨0, 1⟩)
  else state

/-- Replaces the roles of a job by those of some rows.  Rows of other jobs are left out.  Who was on
the ladder and is not among the fresh rows is dropped. -/
def replaceJob (index : LadderIndex) (job : String) (rows : List Role) : LadderIndex × Tally :=
  let fresh := RoleIndex.claims job rows
  let held := fresh.foldl (hold job) index
  let gone := (held.ladder job).values.filter fun id => !fresh.any (·.id = id)
  let rungs := RoleIndex.lowest (rows.filter (·.job = job))
  gone.foldl (dropFrom job) (held.setLadder job rungs, ⟨fresh.length, 0⟩)

/-! ## All roles -/

/-- Replaces the roles of one job after another. -/
def replaceJobs (index : LadderIndex) (jobs : List String) (rows : List Role) :
    LadderIndex × Tally :=
  jobs.foldl (fun state job =>
    let replaced := state.1.replaceJob job rows
    (replaced.1, state.2 + replaced.2)) (index, 0)

/-- The cached roles that are not on the rung their row names. -/
def displaced (index : LadderIndex) : List RoleId :=
  index.roles.values.filterMap fun row =>
    if index.roleId row.job row.grade = some row.id then none else some row.id

/-- Replaces all roles by those of some rows: empties some jobs, fills some others, each in the
order given, and drops whoever is on no rung in the end. -/
def replaceAllIn (index : LadderIndex) (gone named : List String) (rows : List Role) :
    LadderIndex × Tally :=
  let emptied := index.replaceJobs gone []
  let filled := emptied.1.replaceJobs named rows
  let orphans := filled.1.displaced
  ({ filled.1 with roles := orphans.foldl (fun roles id => roles.erase id) filled.1.roles },
    emptied.2 + filled.2 + ⟨0, orphans.length⟩)

end LadderIndex

end GradedAccess
