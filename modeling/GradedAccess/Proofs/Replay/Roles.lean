import GradedAccess.Proofs.Replay.Tables
import GradedAccess.Proofs.Roles.Placement

/-!
# Replaying changes of roles

A role index that has been told something once is not changed by being told it again.  Nothing is
assumed of the index and of the rows: several rows may have one number, several may claim one slot,
and the index may hold roles that have moved or lost their slots.

For a single role this is clear, since it has not moved when it comes again.  When the roles of a
job are replaced again, every claim is held already and belongs to the job, so no slot is emptied;
and the slots have claims only, so nobody is dropped.
-/

namespace GradedAccess

open Std (ExtTreeMap LawfulEqOrd)

namespace RoleIndex

variable {index : RoleIndex} {rows fresh : List Role} {row : Role} {job : String} {id : RoleId}

/-! ## Single roles -/

/-- A role that is cached as it is, and has its slot, can be put into the index without changing
it. -/
theorem upsert_of_held (hrole : index.role row.id = some row)
    (hslot : index.roleId row.job row.grade = some row.id) : index.upsert row = index := by
  have hroles : index.roles.insert row.id row = index.roles := insert_of_found hrole
  have hslots : index.slots.insert (row.job, row.grade) row.id = index.slots :=
    insert_of_found hslot
  rw [upsert, hroles, hrole]
  simp [unlinkMoved, hslots]

/-- Putting a role into the index again changes nothing. -/
theorem upsert_upsert (index : RoleIndex) (row : Role) :
    (index.upsert row).upsert row = index.upsert row := by
  refine upsert_of_held ?_ ?_
  · rw [role_upsert, if_pos rfl]
  · rw [upsert, roleId, ExtTreeMap.getElem?_insert_self]

/-- Dropping a role that is not cached changes nothing. -/
theorem remove_of_eq_none (h : index.role id = none) : index.remove id = index := by
  rw [remove, h]

/-- Dropping a role again changes nothing. -/
theorem remove_remove (index : RoleIndex) (id : RoleId) :
    (index.remove id).remove id = index.remove id := by
  refine remove_of_eq_none ?_
  rw [role_remove, if_pos rfl]

/-! ## Holding rows -/

/-- Of the rows that are held the last one of a number is found by its number. -/
theorem role_foldl_hold_last (fresh : List Role) (index : RoleIndex) (id : RoleId) :
    (fresh.foldl (hold job) index).role id =
      (PairTable.lastFor id (fresh.map fun row => (row.id, row))).or (index.role id) := by
  induction fresh generalizing index with
  | nil => rfl
  | cons row fresh ih =>
    rw [List.foldl_cons, ih, role_hold, List.map_cons, PairTable.lastFor, Option.or_assoc]
    by_cases hid : id = row.id
    · rw [if_pos hid, if_pos hid.symm, Option.some_or]
    · rw [if_neg hid, if_neg (Ne.symm hid), Option.none_or]

/-- A held role of the job is replaced where it is. -/
theorem hold_of_job {earlier : Role} (hearlier : index.role row.id = some earlier)
    (hjob : earlier.job = job) :
    hold job index row = { index with roles := index.roles.insert row.id row } := by
  rw [hold, hearlier]
  simp [unlinkMoved, hjob]

/-- Rows of a job whose numbers are cached for the job already leave the slots as they are. -/
theorem slots_foldl_hold_of_job (hcached : ∀ row ∈ fresh, row.job = job ∧
    ∃ earlier, index.role row.id = some earlier ∧ earlier.job = job) :
    (fresh.foldl (hold job) index).slots = index.slots := by
  induction fresh generalizing index with
  | nil => rfl
  | cons row fresh ih =>
    rw [List.forall_mem_cons] at hcached
    obtain ⟨⟨hown, earlier, hearlier, hjob⟩, hrest⟩ := hcached
    have hheld := hold_of_job hearlier hjob
    rw [List.foldl_cons, ih, hheld]
    intro other hmem
    obtain ⟨hother, before, hbefore, hbeforeJob⟩ := hrest other hmem
    refine ⟨hother, ?_⟩
    rw [role_hold]
    split
    · exact ⟨row, rfl, hown⟩
    · exact ⟨before, hbefore, hbeforeJob⟩

/-- Rows of a job that are cached already, the last one of each number, are held without changing
anything. -/
theorem foldl_hold_of_held (hjob : ∀ row ∈ fresh, row.job = job)
    (hlast : ∀ id row, PairTable.lastFor id (fresh.map fun row => (row.id, row)) = some row →
      index.role id = some row) : fresh.foldl (hold job) index = index := by
  have hcached : ∀ row ∈ fresh, row.job = job ∧
      ∃ earlier, index.role row.id = some earlier ∧ earlier.job = job := by
    intro row hmem
    have hpair : (row.id, row) ∈ fresh.map fun row => (row.id, row) := List.mem_map_of_mem hmem
    obtain ⟨last, hfound⟩ := PairTable.exists_lastFor hpair
    obtain ⟨other, hother, heq⟩ := List.mem_map.mp (PairTable.mem_of_lastFor hfound)
    obtain rfl : other = last := congrArg Prod.snd heq
    exact ⟨hjob row hmem, other, hlast _ _ hfound, hjob other hother⟩
  have hroles : (fresh.foldl (hold job) index).roles = index.roles := by
    refine ExtTreeMap.ext_getElem? fun id => ?_
    refine (role_foldl_hold_last fresh index id).trans ?_
    cases hfound : PairTable.lastFor id (fresh.map fun row => (row.id, row)) with
    | none => rfl
    | some row => exact (hlast id row hfound).symm
  exact congrArg₂ RoleIndex.mk hroles (slots_foldl_hold_of_job hcached)

/-! ## The roles of a job -/

/-- Dropping numbers counts nothing as brought. -/
theorem upserted_foldl_dropFrom (gone : List RoleId) (state : RoleIndex × Tally) :
    (gone.foldl (dropFrom job) state).2.upserted = state.2.upserted := by
  induction gone generalizing state with
  | nil => rfl
  | cons id gone ih =>
    rw [List.foldl_cons, ih, dropFrom]
    split <;> rfl

/-- Replacing the roles of a job again changes nothing, and nobody is gone. -/
theorem replaceJob_again (index : RoleIndex) (job : String) (rows : List Role) :
    (index.replaceJob job rows).1.replaceJob job rows =
      ((index.replaceJob job rows).1, (index.replaceJob job rows).2.again) := by
  generalize hreplaced : index.replaceJob job rows = replaced
  have hslots : ∀ grade id, replaced.1.roleId job grade = some id ↔
      (lowest (rows.filter (·.job = job)))[grade]? = some id := by
    intro grade id
    rw [lowest_eq_some_iff, ← hreplaced, roleId_replaceJob_self]
  -- a claim is held, and it is not dropped afterwards
  have hheld : (claims job rows).foldl (hold job) replaced.1 = replaced.1 := by
    refine foldl_hold_of_held (fun row hmem => (mem_claims_iff.mp hmem).2.1) fun id row hlast => ?_
    rw [← hreplaced, replaceJob, role_foldl_dropFrom, if_neg]
    · refine (role_foldl_hold_last (claims job rows) index id).trans ?_
      rw [hlast, Option.some_or]
    · rintro ⟨hgone, -⟩
      obtain ⟨other, hother, heq⟩ := List.mem_map.mp (PairTable.mem_of_lastFor hlast)
      have hid : other.id = id := congrArg Prod.fst heq
      have hbrought : (claims job rows).any (·.id = id) = true :=
        List.any_eq_true.mpr ⟨other, hother, decide_eq_true hid⟩
      rw [List.mem_filter, hbrought] at hgone
      exact absurd hgone.2 (by simp)
  have hgone : ((replaced.1.jobRoles job).filter fun id =>
      !(claims job rows).any (·.id = id)) = [] := by
    refine List.filter_eq_nil_iff.mpr fun id hmem => ?_
    obtain ⟨grade, hslot⟩ := mem_jobRoles_iff.mp hmem
    have hclaim := (lowest_eq_some_iff.mp ((hslots grade id).mp hslot)).exists_claim
    have hbrought : (claims job rows).any (·.id = id) = true :=
      List.any_eq_true.mpr ⟨_, hclaim, decide_eq_true rfl⟩
    simp [hbrought]
  have hset : replaced.1.setSlots job rows = replaced.1 := by
    refine congrArg (RoleIndex.mk replaced.1.roles) ?_
    refine ExtTreeMap.ext_getElem? fun slot => ?_
    obtain ⟨job', grade⟩ := slot
    refine (roleId_setSlots replaced.1 job rows job' grade).trans ?_
    split
    · next hjob =>
      rw [hjob]
      ext id
      exact (hslots grade id).symm
    · rfl
  have hupserted : replaced.2.upserted = (claims job rows).length := by
    rw [← hreplaced, replaceJob, upserted_foldl_dropFrom]
  rw [replaceJob, hheld, hgone, hset, ← hupserted]
  rfl

end RoleIndex

end GradedAccess
