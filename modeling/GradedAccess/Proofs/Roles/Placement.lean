import GradedAccess.Proofs.Roles.Replace

/-!
# Roles in their slots

The slots of a role index are sound when every one of them leads to the role that belongs there
(`Placed`).  This says more than that slots and roles agree.  A role belongs to one slot only, so a
sound index never has a role in two slots, and a role that moves has to leave the slot it had.

Nothing is assumed here of the rows that are put into the index.  They may move roles to other
grades and other jobs, and they may claim slots that other roles have.  What the operations have in
common is that they empty the slot of a role that moves, and of no other:

* putting a role into the index empties the slot it had and fills the one it gets
  (`roleId_upsert_of_placed`);
* dropping a role empties the slot it had (`roleId_remove`);
* replacing a job fills the slots of the job, and empties the slots in other jobs of the roles that
  move to it (`PlacedBeyond.hold`);
* replacing all roles leaves nothing of what the index was before.
-/

namespace GradedAccess

open Std (ExtTreeMap LawfulEqOrd)

namespace RoleIndex

variable {index : RoleIndex} {rows : List Role} {row : Role} {job job' : String}
variable {grade grade' : Grade} {id id' : RoleId}

/-! ## Filed roles -/

theorem Filed.upsert (h : index.Filed) (row : Role) : (index.upsert row).Filed := by
  intro id found hfound
  rw [role_upsert] at hfound
  split at hfound
  · next hid => rw [← Option.some.inj hfound, hid]
  · exact h id found hfound

theorem Filed.remove (h : index.Filed) (id : RoleId) : (index.remove id).Filed := by
  intro id' found hfound
  rw [role_remove] at hfound
  split at hfound
  · cases hfound
  · exact h id' found hfound

/-! ## Placed roles -/

/-- Whether every slot leads to the role that belongs there. -/
def Placed (index : RoleIndex) : Prop :=
  ∀ ⦃job : String⦄ ⦃grade : Grade⦄ ⦃id : RoleId⦄, index.roleId job grade = some id →
    index.role id = some ⟨id, job, grade⟩

/-- A role is in one slot only. -/
theorem Placed.slot_unique (h : index.Placed) (hslot : index.roleId job grade = some id)
    (hslot' : index.roleId job' grade' = some id) : job = job' ∧ grade = grade' := by
  have hrole := h hslot
  rw [h hslot', Option.some.injEq] at hrole
  exact ⟨(congrArg Role.job hrole).symm, (congrArg Role.grade hrole).symm⟩

/-- A role that is in a slot is in the slot its row names. -/
theorem Placed.slot_of_role (h : index.Placed) (hslot : index.roleId job grade = some id)
    (hrole : index.role id = some row) : row.job = job ∧ row.grade = grade := by
  rw [h hslot, Option.some.injEq] at hrole
  exact ⟨hrole ▸ rfl, hrole ▸ rfl⟩

/-! ## One role -/

/-- Filling a slot leaves the others as they are. -/
theorem roleId_insert (index : RoleIndex) (row : Role) (job : String) (grade : Grade) :
    roleId { index with slots := index.slots.insert (row.job, row.grade) row.id } job grade =
      if job = row.job ∧ grade = row.grade then some row.id else index.roleId job grade := by
  simp only [roleId, ExtTreeMap.getElem?_insert, LawfulEqOrd.compare_eq_iff_eq, Prod.mk.injEq,
    @eq_comm _ row.job, @eq_comm _ row.grade]

/-- A role that is put into the index leaves the slot it had and gets the one its row names. -/
theorem roleId_upsert_of_placed (hfiled : index.Filed) (h : index.Placed) (row : Role)
    (job : String) (grade : Grade) :
    (index.upsert row).roleId job grade =
      if job = row.job ∧ grade = row.grade then some row.id
      else if index.roleId job grade = some row.id then none else index.roleId job grade := by
  rw [RoleIndex.upsert, roleId_insert]
  by_cases hown : job = row.job ∧ grade = row.grade
  · rw [if_pos hown, if_pos hown]
  · rw [if_neg hown, if_neg hown]
    have hheld : RoleIndex.roleId { index with roles := index.roles.insert row.id row } job grade =
        index.roleId job grade := rfl
    cases hearlier : index.role row.id with
    | none =>
      rw [if_neg]
      · exact hheld
      · intro hslot
        rw [h hslot] at hearlier
        cases hearlier
    | some earlier =>
      have hid : earlier.id = row.id := hfiled _ _ hearlier
      dsimp only [unlinkMoved]
      split
      · rw [roleId_unlink, hheld, hid]
        by_cases hslot : index.roleId job grade = some row.id
        · obtain ⟨hjob, hgrade⟩ := h.slot_of_role hslot hearlier
          rw [if_pos ⟨hjob.symm, hgrade.symm, hslot⟩, if_pos hslot]
        · rw [if_neg hslot, if_neg fun hsame => hslot hsame.2.2]
      · next hstays =>
        -- a role that has not moved has no slot but the one it gets again
        rw [if_neg]
        · exact hheld
        · intro hslot
          obtain ⟨rfl, rfl⟩ := h.slot_of_role hslot hearlier
          rw [Bool.or_eq_true, not_or, decide_eq_true_eq, decide_eq_true_eq, not_not, not_not]
            at hstays
          exact hown hstays

theorem Placed.upsert (h : index.Placed) (hfiled : index.Filed) (row : Role) :
    (index.upsert row).Placed := by
  intro job grade id hslot
  rw [roleId_upsert_of_placed hfiled h] at hslot
  rw [role_upsert]
  split at hslot
  · next hown =>
    obtain rfl := Option.some.inj hslot
    rw [if_pos rfl, hown.1, hown.2]
  · rw [Option.ite_none_left_eq_some] at hslot
    rw [if_neg, h hslot.2]
    rintro rfl
    exact hslot.1 hslot.2

/-- A role that is dropped leaves its slot, and the others keep theirs. -/
theorem roleId_remove (hfiled : index.Filed) (h : index.Placed) (dropped : RoleId) (job : String)
    (grade : Grade) :
    (index.remove dropped).roleId job grade =
      if index.roleId job grade = some dropped then none else index.roleId job grade := by
  rw [RoleIndex.remove]
  cases hrow : index.role dropped with
  | none =>
    rw [if_neg]
    intro hslot
    rw [h hslot] at hrow
    cases hrow
  | some row =>
    have hslots : RoleIndex.roleId { index with roles := index.roles.erase dropped } job grade =
        index.roleId job grade := rfl
    dsimp only
    rw [roleId_unlink, hslots, hfiled dropped row hrow]
    by_cases hslot : index.roleId job grade = some dropped
    · obtain ⟨rfl, rfl⟩ := h.slot_of_role hslot hrow
      rw [if_pos ⟨rfl, rfl, hslot⟩, if_pos hslot]
    · rw [if_neg hslot, if_neg fun hown => hslot hown.2.2]

theorem Placed.remove (h : index.Placed) (hfiled : index.Filed) (dropped : RoleId) :
    (index.remove dropped).Placed := by
  intro job grade id hslot
  rw [roleId_remove hfiled h] at hslot
  split at hslot
  · cases hslot
  · next hother =>
    rw [role_remove, if_neg, h hslot]
    rintro rfl
    exact hother hslot

/-! ## The roles of a job -/

/-- Whether every slot of the other jobs leads to the role that belongs there. -/
def PlacedBeyond (job : String) (index : RoleIndex) : Prop :=
  ∀ ⦃job' : String⦄ ⦃grade : Grade⦄ ⦃id : RoleId⦄, job' ≠ job →
    index.roleId job' grade = some id → index.role id = some ⟨id, job', grade⟩

/-- While a row of a job is held, the slots of the other jobs stay sound: a role that moves to the
job leaves the slot it had elsewhere. -/
theorem PlacedBeyond.hold (h : PlacedBeyond job index) (row : Role) :
    PlacedBeyond job (hold job index row) := by
  intro job' grade id hne hslot
  have hheld : index.roleId job' grade = some id := roleId_of_hold hslot
  have hbefore := h hne hheld
  rw [role_hold, if_neg, hbefore]
  rintro rfl
  have hmoved : decide ((⟨row.id, job', grade⟩ : Role).job ≠ job) = true := decide_eq_true hne
  rw [RoleIndex.hold, hbefore] at hslot
  dsimp only [unlinkMoved] at hslot
  rw [if_pos hmoved, roleId_unlink, if_pos ⟨rfl, rfl, hheld⟩] at hslot
  cases hslot

theorem PlacedBeyond.foldl_hold (h : PlacedBeyond job index) (fresh : List Role) :
    PlacedBeyond job (fresh.foldl (RoleIndex.hold job) index) := by
  induction fresh generalizing index with
  | nil => exact h
  | cons row fresh ih => exact ih (h.hold row)

theorem PlacedBeyond.replaceJob (h : PlacedBeyond job index) (rows : List Role) :
    PlacedBeyond job (index.replaceJob job rows).1 := by
  intro job' grade id hne hslot
  rw [RoleIndex.replaceJob, roleId_foldl_dropFrom, roleId_setSlots, if_neg hne] at hslot
  have hrole := h.foldl_hold (claims job rows) hne hslot
  have hset : (((claims job rows).foldl (RoleIndex.hold job) index).setSlots job rows).role id =
      some ⟨id, job', grade⟩ := hrole
  rw [RoleIndex.replaceJob, role_foldl_dropFrom, if_neg, hset]
  rintro ⟨-, hown⟩
  rw [jobOf, hset, Option.map_some, Option.some.injEq] at hown
  exact hne hown

/-- The lowest number of a slot of a job is that of a claim of the job. -/
theorem IsLowest.exists_claim (h : IsLowest (rows.filter (·.job = job)) grade id) :
    (⟨id, job, grade⟩ : Role) ∈ claims job rows := by
  obtain ⟨row, hmem, rfl, rfl⟩ := h.1
  rw [List.mem_filter, decide_eq_true_eq] at hmem
  obtain ⟨hmem, rfl⟩ := hmem
  exact mem_claims_iff.mpr ⟨hmem, rfl, h⟩

theorem Placed.replaceJob (h : index.Placed) (hdistinct : rows.Pairwise fun a b => a.id ≠ b.id)
    (job : String) : (index.replaceJob job rows).1.Placed := by
  intro job' grade id hslot
  by_cases hjob : job' = job
  · subst hjob
    exact role_replaceJob_of_claim hdistinct (roleId_replaceJob_self.mp hslot).exists_claim
  · have hbeyond : PlacedBeyond job index := fun _ _ _ _ hslot => h hslot
    exact hbeyond.replaceJob rows hjob hslot

/-! ## All roles -/

section All

variable {gone named : List String} (hdistinct : rows.Pairwise fun a b => a.id ≠ b.id)
  (hfiled : index.Filed) (hnamed : ∀ job, job ∈ named ↔ ∃ row ∈ rows, row.job = job)
  (hgone : ∀ job ∈ index.jobs, job ∉ named → job ∈ gone)

include hdistinct hfiled hnamed hgone

theorem placed_replaceAllIn : (index.replaceAllIn gone named rows).1.Placed := by
  intro job grade id hslot
  rw [roleId_replaceAllIn hdistinct hfiled hnamed hgone] at hslot
  exact (role_replaceAllIn hdistinct hfiled hnamed hgone).mpr ⟨rfl, hslot.exists_claim⟩

/-- After all roles have been replaced, every cached role is in its slot. -/
theorem roleId_of_role_replaceAllIn
    (hrole : (index.replaceAllIn gone named rows).1.role id = some row) :
    (index.replaceAllIn gone named rows).1.roleId row.job row.grade = some id := by
  obtain ⟨rfl, hclaim⟩ := (role_replaceAllIn hdistinct hfiled hnamed hgone).mp hrole
  exact (roleId_replaceAllIn hdistinct hfiled hnamed hgone).mpr (mem_claims_iff.mp hclaim).2.2

end All

end RoleIndex

end GradedAccess
