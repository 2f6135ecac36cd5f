import GradedAccess.Proofs.Roles.Placement

/-!
# Roles that keep their slots

In most stores a role keeps its job and its grade as long as it exists.  Rows of such a store say
of a cached role what the cache says of it (`Unmoved`), and then two operations of the role index
are simpler than they are for roles that move.  A role that is put into the index gets its slot and
changes no other; replacing a job changes the slots of that job only.
-/

namespace GradedAccess

namespace RoleIndex

variable {index : RoleIndex} {rows : List Role} {row : Role} {job job' : String}

/-- Whether rows say of cached roles what the index says of them. -/
def Unmoved (index : RoleIndex) (rows : List Role) : Prop :=
  ∀ row ∈ rows, ∀ earlier, index.role row.id = some earlier → earlier = row

/-! ## One role -/

/-- A role that has not moved gets its slot, and the others keep theirs. -/
theorem roleId_upsert (h : index.Unmoved [row]) (job : String) (grade : Grade) :
    (index.upsert row).roleId job grade =
      if job = row.job ∧ grade = row.grade then some row.id else index.roleId job grade := by
  have hunlinked : RoleIndex.unlinkMoved { index with roles := index.roles.insert row.id row }
      (index.role row.id) (fun earlier => earlier.job ≠ row.job || earlier.grade ≠ row.grade) =
        { index with roles := index.roles.insert row.id row } := by
    cases hearlier : index.role row.id with
    | none => rfl
    | some earlier =>
      obtain rfl := h row (List.mem_singleton_self row) earlier hearlier
      simp [unlinkMoved]
  rw [RoleIndex.upsert, hunlinked, roleId_insert]
  rfl

/-! ## The roles of a job -/

/-- Replacing a job by roles that have not moved changes the slots of that job only. -/
theorem roleId_replaceJob_of_unmoved (hfiled : index.Filed) (hplaced : index.Placed)
    (h : index.Unmoved rows) (hne : job' ≠ job) (grade : Grade) :
    (index.replaceJob job rows).1.roleId job' grade = index.roleId job' grade := by
  ext id
  refine ⟨roleId_of_replaceJob hne, fun hslot => ?_⟩
  refine roleId_replaceJob_of_ne hfiled hne hslot fun row hclaim hid => ?_
  obtain ⟨hmem, hjob, -⟩ := mem_claims_iff.mp hclaim
  have hsame := h row hmem _ (hid ▸ hplaced hslot)
  rw [← hsame] at hjob
  exact hne hjob

end RoleIndex

end GradedAccess
