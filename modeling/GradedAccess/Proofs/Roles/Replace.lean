import GradedAccess.Proofs.Tables
import GradedAccess.RoleIndex
import Mathlib.Data.List.Induction
import Mathlib.Data.List.Nodup

/-!
# Replacing roles

What replacing the roles of one job, or all roles, does to the two tables of the role index.  Rows
are assumed to have distinct numbers, as the rows of a store have; apart from that they are
arbitrary, and so is the index they are put into.

* Of several rows that claim a slot the lowest number gets it (`lowest_eq_some_iff`).  The rows
  that get their slot are the `claims` of their job.
* Replacing a job gives its slots to its claims, and takes a slot of another job only from a role
  that has moved away from there.
* Replacing all roles, one job after another in whatever order, leaves the claims of all jobs and
  nothing else (`roleId_replaceAllIn`, `role_replaceAllIn`).  Here the earlier index does not
  matter any more, not even its displaced roles.
-/

namespace GradedAccess

open Std (ExtTreeMap LawfulEqOrd)

namespace RoleIndex

variable {index : RoleIndex} {rows : List Role} {row : Role} {job job' : String} {grade : Grade}
variable {id : RoleId}

/-! ## The lowest number of a grade -/

/-- Whether a number is the lowest one that some rows have for a grade. -/
def IsLowest (rows : List Role) (grade : Grade) (id : RoleId) : Prop :=
  (∃ row ∈ rows, row.grade = grade ∧ row.id = id) ∧
    ∀ other ∈ rows, other.grade = grade → compare other.id id ≠ .lt

/-- Only one number is the lowest. -/
theorem IsLowest.unique {id' : RoleId} (h : IsLowest rows grade id) (h' : IsLowest rows grade id') :
    id = id' := by
  obtain ⟨⟨row, hmem, hgrade, rfl⟩, hlow⟩ := h
  obtain ⟨⟨row', hmem', hgrade', rfl⟩, hlow'⟩ := h'
  have hle := hlow row' hmem' hgrade'
  have hle' := hlow' row hmem hgrade
  rw [Std.OrientedOrd.eq_swap (a := row.id)] at hle'
  cases hcmp : compare row'.id row.id with
  | lt => exact absurd hcmp hle
  | eq => exact (LawfulEqOrd.eq_of_compare hcmp).symm
  | gt => rw [hcmp] at hle'; exact absurd rfl hle'

/-- The lowest number stays the lowest if one more row does not go below it. -/
theorem IsLowest.concat (h : IsLowest rows grade id)
    (hrow : row.grade = grade → compare row.id id ≠ .lt) :
    IsLowest (rows ++ [row]) grade id := by
  obtain ⟨⟨holder, hholder, hheld⟩, hlow⟩ := h
  refine ⟨⟨holder, List.mem_append_left _ hholder, hheld⟩, fun other hmem hother => ?_⟩
  rcases List.mem_append.mp hmem with hmem | hmem
  · exact hlow other hmem hother
  · rw [List.mem_singleton.mp hmem] at hother ⊢
    exact hrow hother

/-- One more row has the lowest number if no row before it goes below it. -/
theorem isLowest_concat_self (hgrade : row.grade = grade)
    (hlow : ∀ other ∈ rows, other.grade = grade → compare other.id row.id ≠ .lt) :
    IsLowest (rows ++ [row]) grade row.id := by
  refine ⟨⟨row, List.mem_append_right _ (List.mem_singleton_self row), hgrade, rfl⟩,
    fun other hmem hother => ?_⟩
  rcases List.mem_append.mp hmem with hmem | hmem
  · exact hlow other hmem hother
  · rw [List.mem_singleton.mp hmem, Std.ReflOrd.compare_self]
    nofun

/-- One more row matters to its own grade only, and takes over there if its number is lower. -/
theorem getElem?_lowest_concat (rows : List Role) (row : Role) (grade : Grade) :
    (lowest (rows ++ [row]))[grade]? =
      if row.grade = grade then
        match (lowest rows)[grade]? with
        | some id => if compare row.id id = .lt then some row.id else some id
        | none => some row.id
      else (lowest rows)[grade]? := by
  have hconcat : lowest (rows ++ [row]) =
      match (lowest rows)[row.grade]? with
      | some id =>
        if compare row.id id = .lt then (lowest rows).insert row.grade row.id else lowest rows
      | none => (lowest rows).insert row.grade row.id := by
    rw [lowest, List.foldl_append]
    rfl
  rw [hconcat]
  by_cases hg : row.grade = grade
  · subst hg
    rw [if_pos rfl]
    cases hheld : (lowest rows)[row.grade]? with
    | none => simp
    | some id => by_cases hlt : compare row.id id = .lt <;> simp [hlt, hheld]
  · rw [if_neg hg]
    split
    · split
      · rw [ExtTreeMap.getElem?_insert, if_neg (by rwa [LawfulEqOrd.compare_eq_iff_eq])]
      · rfl
    · rw [ExtTreeMap.getElem?_insert, if_neg (by rwa [LawfulEqOrd.compare_eq_iff_eq])]

/-- What is kept of some rows: nothing for a grade without rows, and the lowest number for a grade
with rows. -/
theorem lowest_spec (rows : List Role) (grade : Grade) :
    ((lowest rows)[grade]? = none ∧ ∀ row ∈ rows, row.grade ≠ grade) ∨
      ∃ id, (lowest rows)[grade]? = some id ∧ IsLowest rows grade id := by
  -- rows are taken from the front, so it is at the end of the list that one more is seen
  induction rows using List.reverseRecOn with
  | nil => simp [lowest]
  | append_singleton rows row ih =>
    rw [getElem?_lowest_concat]
    by_cases hg : row.grade = grade
    · rw [if_pos hg]
      rcases ih with ⟨hheld, hnone⟩ | ⟨id, hheld, hlow⟩
      · rw [hheld]
        exact Or.inr ⟨row.id, rfl, isLowest_concat_self hg fun other hmem hother =>
          absurd hother (hnone other hmem)⟩
      · rw [hheld]
        by_cases hlt : compare row.id id = .lt
        · refine Or.inr ⟨row.id, if_pos hlt, isLowest_concat_self hg fun other hmem hother => ?_⟩
          intro hbelow
          exact hlow.2 other hmem hother (Std.TransCmp.lt_trans hbelow hlt)
        · exact Or.inr ⟨id, if_neg hlt, hlow.concat fun _ => hlt⟩
    · rw [if_neg hg]
      rcases ih with ⟨hheld, hnone⟩ | ⟨id, hheld, hlow⟩
      · refine Or.inl ⟨hheld, fun other hmem => ?_⟩
        rcases List.mem_append.mp hmem with hmem | hmem
        · exact hnone other hmem
        · rwa [List.mem_singleton.mp hmem]
      · exact Or.inr ⟨id, hheld, hlow.concat fun hrow => absurd hrow hg⟩

/-- The number that is kept for a grade is the lowest one. -/
theorem lowest_eq_some_iff : (lowest rows)[grade]? = some id ↔ IsLowest rows grade id := by
  rcases lowest_spec rows grade with ⟨hheld, hnone⟩ | ⟨id', hheld, hlow⟩
  · rw [hheld]
    refine ⟨nofun, fun h => ?_⟩
    obtain ⟨⟨row, hmem, hgrade, -⟩, -⟩ := h
    exact absurd hgrade (hnone row hmem)
  · rw [hheld, Option.some.injEq]
    constructor
    · rintro rfl
      exact hlow
    · intro h
      exact hlow.unique h

/-- The claims of a job are its rows with the lowest number of their grade. -/
theorem mem_claims_iff :
    row ∈ claims job rows ↔
      row ∈ rows ∧ row.job = job ∧
        IsLowest (rows.filter (·.job = job)) row.grade row.id := by
  rw [claims, List.mem_filter, List.mem_filter, decide_eq_true_eq, decide_eq_true_eq,
    lowest_eq_some_iff, and_assoc]

/-- Where no two rows claim one slot, every row has the lowest number of its slot. -/
theorem isLowest_iff_of_slots (hslots : ∀ a ∈ rows, ∀ b ∈ rows,
    a.job = b.job ∧ a.grade = b.grade → a = b) :
    IsLowest (rows.filter (·.job = job)) grade id ↔
      ∃ row ∈ rows, row.job = job ∧ row.grade = grade ∧ row.id = id := by
  constructor
  · rintro ⟨⟨row, hmem, hgrade, hid⟩, -⟩
    rw [List.mem_filter, decide_eq_true_eq] at hmem
    exact ⟨row, hmem.1, hmem.2, hgrade, hid⟩
  · rintro ⟨row, hmem, rfl, rfl, rfl⟩
    refine ⟨⟨row, List.mem_filter.mpr ⟨hmem, decide_eq_true rfl⟩, rfl, rfl⟩, ?_⟩
    intro other hother hgrade
    rw [List.mem_filter, decide_eq_true_eq] at hother
    rw [hslots other hother.1 row hmem ⟨hother.2, hgrade⟩, Std.ReflOrd.compare_self]
    nofun

/-- Where no two rows claim one slot, all rows of a job are claims. -/
theorem mem_claims_iff_of_slots (hslots : ∀ a ∈ rows, ∀ b ∈ rows,
    a.job = b.job ∧ a.grade = b.grade → a = b) :
    row ∈ claims job rows ↔ row ∈ rows ∧ row.job = job := by
  rw [mem_claims_iff, isLowest_iff_of_slots hslots]
  constructor
  · rintro ⟨hmem, hjob, -⟩
    exact ⟨hmem, hjob⟩
  · rintro ⟨hmem, hjob⟩
    exact ⟨hmem, hjob, row, hmem, hjob, rfl, rfl⟩

/-! ## Rows with distinct numbers -/

/-- Rows with distinct numbers are told apart by their numbers. -/
theorem eq_of_id_eq {other : Role} (hdistinct : rows.Pairwise fun a b => a.id ≠ b.id)
    (hmem : row ∈ rows) (hother : other ∈ rows) (hid : other.id = row.id) : other = row := by
  have hnodup : (rows.map (·.id)).Nodup := List.pairwise_map.mpr hdistinct
  exact List.inj_on_of_nodup_map hnodup hother hmem hid

/-- The row of a number is one of the rows, and has the number. -/
theorem of_find? (h : rows.find? (·.id = id) = some row) : row ∈ rows ∧ row.id = id := by
  have hid := List.find?_some h
  exact ⟨List.mem_of_find?_eq_some h, of_decide_eq_true hid⟩

/-- Of rows with distinct numbers every one is found by its number. -/
theorem find?_id (hdistinct : rows.Pairwise fun a b => a.id ≠ b.id) (hmem : row ∈ rows) :
    rows.find? (·.id = row.id) = some row := by
  cases hfound : rows.find? (·.id = row.id) with
  | none => exact absurd (List.find?_eq_none.mp hfound row hmem) (by simp)
  | some other =>
    obtain ⟨hother, hid⟩ := of_find? hfound
    rw [eq_of_id_eq hdistinct hmem hother hid]

/-- Rows with distinct numbers have claims with distinct numbers. -/
theorem distinct_claims (hdistinct : rows.Pairwise fun a b => a.id ≠ b.id) (job : String) :
    (claims job rows).Pairwise fun a b => a.id ≠ b.id :=
  (hdistinct.filter _).filter _

/-! ## Holding the claims of a job -/

theorem role_hold (index : RoleIndex) (job : String) (row : Role) (id : RoleId) :
    (hold job index row).role id = if id = row.id then some row else index.role id := by
  rw [hold, role_unlinkMoved]
  simp only [role, ExtTreeMap.getElem?_insert, LawfulEqOrd.compare_eq_iff_eq, @eq_comm _ row.id]

/-- Whether every cached role is found under its own number. -/
def Filed (index : RoleIndex) : Prop := ∀ id row, index.role id = some row → row.id = id

theorem Filed.hold (h : index.Filed) : (hold job index row).Filed := by
  intro id found hfound
  rw [role_hold] at hfound
  split at hfound
  · next hid =>
    rw [← Option.some.inj hfound, hid]
  · exact h id found hfound

/-- What is found in a slot after a role has been unlinked was found there before. -/
theorem roleId_of_unlinkMoved {earlier : Option Role} {moved : Role → Bool}
    (h : (index.unlinkMoved earlier moved).roleId job grade = some id) :
    index.roleId job grade = some id := by
  unfold unlinkMoved at h
  split at h
  · split at h
    · rw [roleId_unlink] at h
      split at h
      · cases h
      · exact h
    · exact h
  · exact h

theorem roleId_of_hold (h : (hold job' index row).roleId job grade = some id) :
    index.roleId job grade = some id := by
  have hbefore := roleId_of_unlinkMoved h
  exact hbefore

/-- A slot keeps its role when another one is unlinked, or when what is unlinked has not moved. -/
theorem roleId_unlinkMoved_of_ne {earlier : Option Role} {moved : Role → Bool}
    (h : index.roleId job grade = some id)
    (hne : ∀ row, earlier = some row → moved row → row.job = job → row.grade = grade →
      row.id ≠ id) :
    (index.unlinkMoved earlier moved).roleId job grade = some id := by
  unfold unlinkMoved
  split
  · next row =>
    split
    · next hmoved =>
      rw [roleId_unlink, if_neg, h]
      rintro ⟨hjob, hgrade, hid⟩
      rw [h] at hid
      exact hne row rfl hmoved hjob.symm hgrade.symm (Option.some.inj hid).symm
    · exact h
  · exact h

/-- Holding the rows of a job leaves the slots of that job as they are. -/
theorem roleId_foldl_hold_self (fresh : List Role) (index : RoleIndex) (job : String)
    (grade : Grade) : (fresh.foldl (hold job) index).roleId job grade = index.roleId job grade := by
  induction fresh generalizing index with
  | nil => rfl
  | cons row fresh ih =>
    rw [List.foldl_cons, ih]
    ext id
    constructor
    · exact roleId_of_hold
    · intro h
      refine roleId_unlinkMoved_of_ne h fun earlier _ hmoved hjob => ?_
      exact absurd hjob (of_decide_eq_true hmoved)

/-- What is found in a slot while rows are held was found there before. -/
theorem roleId_of_foldl_hold {fresh : List Role}
    (h : (fresh.foldl (hold job') index).roleId job grade = some id) :
    index.roleId job grade = some id := by
  induction fresh generalizing index with
  | nil => exact h
  | cons row fresh ih => exact roleId_of_hold (ih h)

/-- A slot keeps its role while rows of other numbers are held. -/
theorem roleId_foldl_hold_of_ne {fresh : List Role} (hfiled : index.Filed)
    (h : index.roleId job grade = some id) (hne : ∀ row ∈ fresh, row.id ≠ id) :
    (fresh.foldl (hold job') index).roleId job grade = some id := by
  induction fresh generalizing index with
  | nil => exact h
  | cons row fresh ih =>
    rw [List.foldl_cons]
    refine ih hfiled.hold ?_ fun other hmem => hne other (List.mem_cons_of_mem _ hmem)
    refine roleId_unlinkMoved_of_ne h fun earlier hearlier _ _ _ => ?_
    rw [hfiled _ _ hearlier]
    exact hne row List.mem_cons_self

/-- A held row is found by its number, if no other held row has that number. -/
theorem role_foldl_hold (fresh : List Role) (hdistinct : fresh.Pairwise fun a b => a.id ≠ b.id)
    (index : RoleIndex) (id : RoleId) :
    (fresh.foldl (hold job) index).role id =
      ((fresh.find? (·.id = id)).or (index.role id)) := by
  induction fresh generalizing index with
  | nil => rfl
  | cons row fresh ih =>
    rw [List.pairwise_cons] at hdistinct
    rw [List.foldl_cons, ih hdistinct.2, role_hold, List.find?_cons]
    by_cases hid : row.id = id
    · have hnone : fresh.find? (·.id = id) = none := by
        rw [List.find?_eq_none]
        intro other hmem hother
        exact hdistinct.1 other hmem (hid.trans (of_decide_eq_true hother).symm)
      simp [hid, hnone]
    · simp [hid, Ne.symm hid]

/-! ## Dropping what a job does not have any more -/

/-- Dropping numbers from a job drops those that still belong to it. -/
theorem role_foldl_dropFrom (gone : List RoleId) (state : RoleIndex × Tally) (id : RoleId) :
    (gone.foldl (dropFrom job) state).1.role id =
      if id ∈ gone ∧ state.1.jobOf id = some job then none else state.1.role id := by
  induction gone generalizing state with
  | nil => simp
  | cons first gone ih =>
    have hfirst : (dropFrom job state first).1.role id =
        if id = first ∧ state.1.jobOf id = some job then none else state.1.role id := by
      unfold dropFrom
      by_cases hid : id = first
      · subst hid
        split <;> simp_all [role]
      · split <;> simp [role, hid, Ne.symm hid, ExtTreeMap.getElem?_erase]
    rw [List.foldl_cons, ih, jobOf, hfirst]
    by_cases hid : id = first
    · by_cases hjob : state.1.jobOf id = some job <;> simp_all [jobOf]
    · simp [hid, jobOf]

/-- Dropping numbers from a job leaves the slots as they are. -/
theorem roleId_foldl_dropFrom (gone : List RoleId) (state : RoleIndex × Tally) (job' : String)
    (grade : Grade) :
    (gone.foldl (dropFrom job) state).1.roleId job' grade = state.1.roleId job' grade := by
  induction gone generalizing state with
  | nil => rfl
  | cons first gone ih =>
    rw [List.foldl_cons, ih]
    unfold dropFrom
    split <;> rfl

/-! ## Replacing one job -/

/-- The slots of a job are set to the lowest numbers, the others stay. -/
theorem roleId_setSlots (index : RoleIndex) (job : String) (rows : List Role) (job' : String)
    (grade : Grade) :
    (index.setSlots job rows).roleId job' grade =
      if job' = job then (lowest (rows.filter (·.job = job)))[grade]?
      else index.roleId job' grade := by
  rw [setSlots, roleId, PairTable.getElem?_putRow, PairTable.getElem?_dropRow,
    PairTable.lastFor_toList]
  by_cases h : job' = job
  · simp [h]
  · simp [h, roleId]

/-- Replacing a job gives its slots to the lowest numbers. -/
theorem roleId_replaceJob_self :
    (index.replaceJob job rows).1.roleId job grade = some id ↔
      IsLowest (rows.filter (·.job = job)) grade id := by
  rw [replaceJob, roleId_foldl_dropFrom, roleId_setSlots, if_pos rfl, lowest_eq_some_iff]

/-- Replacing a job fills no slot of another job. -/
theorem roleId_of_replaceJob (hne : job' ≠ job)
    (h : (index.replaceJob job rows).1.roleId job' grade = some id) :
    index.roleId job' grade = some id := by
  rw [replaceJob, roleId_foldl_dropFrom, roleId_setSlots, if_neg hne] at h
  exact roleId_of_foldl_hold h

/-- Replacing a job leaves a slot of another job to a role that has not moved. -/
theorem roleId_replaceJob_of_ne (hfiled : index.Filed) (hne : job' ≠ job)
    (h : index.roleId job' grade = some id) (hid : ∀ row ∈ claims job rows, row.id ≠ id) :
    (index.replaceJob job rows).1.roleId job' grade = some id := by
  rw [replaceJob, roleId_foldl_dropFrom, roleId_setSlots, if_neg hne]
  exact roleId_foldl_hold_of_ne hfiled h hid

/-- Replacing a job caches its claims, and drops the roles that were in its slots and still belong
to it. -/
theorem role_replaceJob (hdistinct : rows.Pairwise fun a b => a.id ≠ b.id) (index : RoleIndex)
    (job : String) (id : RoleId) :
    (index.replaceJob job rows).1.role id =
      ((claims job rows).find? (·.id = id)).or
        (if id ∈ index.jobRoles job ∧ index.jobOf id = some job then none else index.role id) := by
  have hrole : ((claims job rows).foldl (hold job) index).role id =
      ((claims job rows).find? (·.id = id)).or (index.role id) :=
    role_foldl_hold (claims job rows) (distinct_claims hdistinct job) index id
  have hslots : id ∈ ((claims job rows).foldl (hold job) index).jobRoles job ↔
      id ∈ index.jobRoles job := by
    simp only [mem_jobRoles_iff, roleId_foldl_hold_self]
  rw [replaceJob, role_foldl_dropFrom]
  generalize (claims job rows).foldl (hold job) index = held at hrole hslots
  have hset : (held.setSlots job rows).role id = held.role id := rfl
  simp only [jobOf, hset, hrole, List.mem_filter, hslots]
  cases hfind : (claims job rows).find? (·.id = id) with
  | none =>
    have hnone : (claims job rows).any (·.id = id) = false := by
      rw [List.any_eq_false]
      exact List.find?_eq_none.mp hfind
    simp [hnone]
  | some row =>
    obtain ⟨hmem, hid⟩ := of_find? hfind
    have hany : (claims job rows).any (·.id = id) = true :=
      List.any_eq_true.mpr ⟨row, hmem, decide_eq_true hid⟩
    simp [hany]

/-- A claim of the job that is replaced is cached. -/
theorem role_replaceJob_of_claim (hdistinct : rows.Pairwise fun a b => a.id ≠ b.id)
    (hclaim : row ∈ claims job rows) : (index.replaceJob job rows).1.role row.id = some row := by
  rw [role_replaceJob hdistinct, find?_id (distinct_claims hdistinct job) hclaim]
  rfl

/-- A number without a claim keeps its role, unless that role was in a slot of the job and still
belonged to it. -/
theorem role_replaceJob_of_ne (hdistinct : rows.Pairwise fun a b => a.id ≠ b.id)
    (hid : ∀ row ∈ claims job rows, row.id ≠ id) :
    (index.replaceJob job rows).1.role id =
      if id ∈ index.jobRoles job ∧ index.jobOf id = some job then none else index.role id := by
  have hfind : (claims job rows).find? (·.id = id) = none := by
    rw [List.find?_eq_none]
    intro row hmem
    simpa using hid row hmem
  rw [role_replaceJob hdistinct, hfind]
  rfl

theorem Filed.foldl_hold (h : index.Filed) (fresh : List Role) :
    (fresh.foldl (RoleIndex.hold job) index).Filed := by
  induction fresh generalizing index with
  | nil => exact h
  | cons row fresh ih => exact ih h.hold

theorem Filed.replaceJob (h : index.Filed) (job : String) (rows : List Role) :
    (index.replaceJob job rows).1.Filed := by
  intro id found hfound
  rw [RoleIndex.replaceJob, role_foldl_dropFrom] at hfound
  split at hfound
  · cases hfound
  · exact h.foldl_hold (claims job rows) id found hfound

/-! ## Replacing one job after another -/

theorem replaceJobs_cons (index : RoleIndex) (job : String) (jobs : List String)
    (rows : List Role) :
    (index.replaceJobs (job :: jobs) rows).1 =
      ((index.replaceJob job rows).1.replaceJobs jobs rows).1 := by
  -- the tallies of the earlier jobs are carried along, and no job looks at them
  have hfold : ∀ (jobs : List String) (state state' : RoleIndex × Tally), state.1 = state'.1 →
      (jobs.foldl (fun state job =>
        let replaced := state.1.replaceJob job rows
        (replaced.1, state.2 + replaced.2)) state).1 =
      (jobs.foldl (fun state job =>
        let replaced := state.1.replaceJob job rows
        (replaced.1, state.2 + replaced.2)) state').1 := by
    intro jobs
    induction jobs with
    | nil => intro state state' h; exact h
    | cons job jobs ih =>
      intro state state' h
      rw [List.foldl_cons, List.foldl_cons]
      apply ih
      rw [h]
  exact hfold jobs _ _ rfl

theorem Filed.replaceJobs (h : index.Filed) (jobs : List String) (rows : List Role) :
    (index.replaceJobs jobs rows).1.Filed := by
  induction jobs generalizing index with
  | nil => exact h
  | cons job jobs ih =>
    rw [replaceJobs_cons]
    exact ih (h.replaceJob job rows)

/-- Replacing some jobs fills no slot of another. -/
theorem roleId_of_replaceJobs {jobs : List String} (hjob : job ∉ jobs)
    (h : (index.replaceJobs jobs rows).1.roleId job grade = some id) :
    index.roleId job grade = some id := by
  induction jobs generalizing index with
  | nil => exact h
  | cons first jobs ih =>
    rw [List.mem_cons, not_or] at hjob
    rw [replaceJobs_cons] at h
    exact roleId_of_replaceJob hjob.1 (ih hjob.2 h)

/-- Replacing some jobs leaves a slot of another job to a role that does not move. -/
theorem roleId_replaceJobs_of_ne {jobs : List String} (hfiled : index.Filed) (hjob : job ∉ jobs)
    (h : index.roleId job grade = some id)
    (hid : ∀ other ∈ jobs, ∀ row ∈ claims other rows, row.id ≠ id) :
    (index.replaceJobs jobs rows).1.roleId job grade = some id := by
  induction jobs generalizing index with
  | nil => exact h
  | cons first jobs ih =>
    rw [List.mem_cons, not_or] at hjob
    rw [replaceJobs_cons]
    refine ih (hfiled.replaceJob first rows) hjob.2 ?_ fun other hother =>
      hid other (List.mem_cons_of_mem _ hother)
    exact roleId_replaceJob_of_ne hfiled hjob.1 h (hid first List.mem_cons_self)

/-- A row of one job is no claim of another. -/
theorem ne_id_of_mem_claims (hdistinct : rows.Pairwise fun a b => a.id ≠ b.id)
    (hmem : row ∈ rows) (hne : row.job ≠ job) : ∀ claim ∈ claims job rows, claim.id ≠ row.id := by
  intro claim hclaim hid
  obtain ⟨hmem', hjob, -⟩ := mem_claims_iff.mp hclaim
  rw [eq_of_id_eq hdistinct hmem hmem' hid] at hjob
  exact hne hjob

/-- Replacing some jobs gives their slots to the lowest numbers, whatever their order. -/
theorem roleId_replaceJobs_of_mem {jobs : List String}
    (hdistinct : rows.Pairwise fun a b => a.id ≠ b.id) (hfiled : index.Filed) (hjob : job ∈ jobs) :
    (index.replaceJobs jobs rows).1.roleId job grade = some id ↔
      IsLowest (rows.filter (·.job = job)) grade id := by
  induction jobs generalizing index with
  | nil => cases hjob
  | cons first jobs ih =>
    rw [replaceJobs_cons]
    by_cases hlater : job ∈ jobs
    · exact ih (hfiled.replaceJob first rows) hlater
    · rcases List.mem_cons.mp hjob with rfl | hmem
      · have hself : (index.replaceJob job rows).1.roleId job grade = some id ↔
            IsLowest (rows.filter (·.job = job)) grade id := roleId_replaceJob_self
        rw [← hself]
        refine ⟨roleId_of_replaceJobs hlater, fun h => ?_⟩
        refine roleId_replaceJobs_of_ne (hfiled.replaceJob job rows) hlater h ?_
        intro other hother
        obtain ⟨⟨row, hrow, -, rfl⟩, -⟩ := roleId_replaceJob_self.mp h
        rw [List.mem_filter, decide_eq_true_eq] at hrow
        refine ne_id_of_mem_claims hdistinct hrow.1 fun heq => hlater ?_
        rwa [← hrow.2, heq]
      · exact absurd hmem hlater

/-- Replacing some jobs keeps a cached role of another job, if it does not move. -/
theorem role_replaceJobs_of_ne {jobs : List String}
    (hdistinct : rows.Pairwise fun a b => a.id ≠ b.id) (h : index.role id = some row)
    (hjob : row.job ∉ jobs) (hid : ∀ other ∈ jobs, ∀ row ∈ claims other rows, row.id ≠ id) :
    (index.replaceJobs jobs rows).1.role id = some row := by
  induction jobs generalizing index with
  | nil => exact h
  | cons first jobs ih =>
    rw [List.mem_cons, not_or] at hjob
    rw [replaceJobs_cons]
    refine ih ?_ hjob.2 fun other hother => hid other (List.mem_cons_of_mem _ hother)
    rw [role_replaceJob_of_ne hdistinct (hid first List.mem_cons_self), if_neg, h]
    rintro ⟨-, hown⟩
    rw [jobOf, h, Option.map_some, Option.some.injEq] at hown
    exact hjob.1 hown

/-- Replacing some jobs caches all their claims. -/
theorem role_replaceJobs_of_claim {jobs : List String}
    (hdistinct : rows.Pairwise fun a b => a.id ≠ b.id) (hjob : job ∈ jobs)
    (hclaim : row ∈ claims job rows) : (index.replaceJobs jobs rows).1.role row.id = some row := by
  induction jobs generalizing index with
  | nil => cases hjob
  | cons first jobs ih =>
    rw [replaceJobs_cons]
    by_cases hlater : job ∈ jobs
    · exact ih hlater
    · rcases List.mem_cons.mp hjob with rfl | hmem
      · obtain ⟨hrow, hown, -⟩ := mem_claims_iff.mp hclaim
        refine role_replaceJobs_of_ne hdistinct (role_replaceJob_of_claim hdistinct hclaim)
          (hown ▸ hlater) fun other hother => ?_
        refine ne_id_of_mem_claims hdistinct hrow fun heq => hlater ?_
        rwa [← hown, heq]
      · exact absurd hmem hlater

/-! ## Replacing all roles -/

/-- A displaced role is a cached one whose slot is not its own. -/
theorem mem_displaced_iff :
    id ∈ index.displaced ↔
      ∃ row, index.role id = some row ∧ index.roleId row.job row.grade ≠ some id := by
  simp only [displaced, List.mem_filterMap, Option.ite_none_left_eq_some, Option.some.injEq,
    Prod.exists, ExtTreeMap.mem_toList_iff_getElem?_eq_some, role]
  constructor
  · rintro ⟨id', row, hrow, hslot, rfl⟩
    exact ⟨row, hrow, hslot⟩
  · rintro ⟨row, hrow, hslot⟩
    exact ⟨id, row, hrow, hslot, rfl⟩

/-- Dropping the displaced roles leaves those that are in their slots. -/
theorem role_dropDisplaced (index : RoleIndex) :
    role { index with roles := index.displaced.foldl (fun roles id => roles.erase id) index.roles }
        id = some row ↔
      index.role id = some row ∧ index.roleId row.job row.grade = some id := by
  rw [role, getElem?_foldl_erase, Option.ite_none_left_eq_some, mem_displaced_iff]
  constructor
  · rintro ⟨hplaced, hrow⟩
    refine ⟨hrow, ?_⟩
    by_contra hslot
    exact hplaced ⟨row, hrow, hslot⟩
  · rintro ⟨hrow, hslot⟩
    refine ⟨?_, hrow⟩
    rintro ⟨row', hrow', hslot'⟩
    rw [hrow, Option.some.injEq] at hrow'
    exact hslot' (hrow' ▸ hslot)

theorem Filed.replaceAllIn (h : index.Filed) (gone named : List String) (rows : List Role) :
    (index.replaceAllIn gone named rows).1.Filed := by
  intro id found hfound
  rw [RoleIndex.replaceAllIn, role_dropDisplaced] at hfound
  exact ((h.replaceJobs gone []).replaceJobs named rows) id found hfound.1

theorem Filed.replaceAll (h : index.Filed) (rows : List Role) :
    (index.replaceAll rows).1.Filed :=
  h.replaceAllIn _ _ rows

section All

variable {gone named : List String} (hdistinct : rows.Pairwise fun a b => a.id ≠ b.id)
  (hfiled : index.Filed) (hnamed : ∀ job, job ∈ named ↔ ∃ row ∈ rows, row.job = job)
  (hgone : ∀ job ∈ index.jobs, job ∉ named → job ∈ gone)

include hdistinct hfiled hnamed hgone

/-- Replacing all roles gives every slot to the lowest number that claims it, in whatever order
the jobs are taken. -/
theorem roleId_replaceAllIn :
    (index.replaceAllIn gone named rows).1.roleId job grade = some id ↔
      IsLowest (rows.filter (·.job = job)) grade id := by
  have hemptied : (index.replaceJobs gone []).1.Filed := hfiled.replaceJobs gone []
  have hfilled : (index.replaceAllIn gone named rows).1.roleId job grade =
      ((index.replaceJobs gone []).1.replaceJobs named rows).1.roleId job grade := rfl
  rw [hfilled]
  by_cases hjob : job ∈ named
  · exact roleId_replaceJobs_of_mem hdistinct hemptied hjob
  · constructor
    · intro h
      have hbefore := roleId_of_replaceJobs hjob h
      by_cases hdropped : job ∈ gone
      · obtain ⟨⟨row, hrow, -⟩, -⟩ :=
          (roleId_replaceJobs_of_mem List.Pairwise.nil hfiled hdropped).mp hbefore
        cases hrow
      · have hold := roleId_of_replaceJobs hdropped hbefore
        exact absurd (hgone job (mem_jobs_iff.mpr ⟨grade, id, hold⟩) hjob) hdropped
    · rintro ⟨⟨row, hrow, -⟩, -⟩
      rw [List.mem_filter, decide_eq_true_eq] at hrow
      exact absurd ((hnamed job).mpr ⟨row, hrow.1, hrow.2⟩) hjob

/-- Replacing all roles caches the rows that have their slot, and nothing else. -/
theorem role_replaceAllIn :
    (index.replaceAllIn gone named rows).1.role id = some row ↔
      row.id = id ∧ row ∈ claims row.job rows := by
  have hslot : ∀ job grade, ((index.replaceJobs gone []).1.replaceJobs named rows).1.roleId job
      grade = some id ↔ IsLowest (rows.filter (·.job = job)) grade id := fun _ _ =>
    roleId_replaceAllIn hdistinct hfiled hnamed hgone
  have hcached : ∀ claim, claim ∈ claims claim.job rows →
      ((index.replaceJobs gone []).1.replaceJobs named rows).1.role claim.id = some claim := by
    intro claim hclaim
    refine role_replaceJobs_of_claim hdistinct ((hnamed _).mpr ?_) hclaim
    exact ⟨claim, (mem_claims_iff.mp hclaim).1, rfl⟩
  refine Iff.trans (role_dropDisplaced _) ?_
  rw [hslot]
  constructor
  · rintro ⟨hrow, hlow⟩
    -- the slot has a row of this number, and that row is what is cached under it
    obtain ⟨claim, hmem, hgrade, rfl⟩ := hlow.1
    rw [List.mem_filter, decide_eq_true_eq] at hmem
    have hclaim : claim ∈ claims claim.job rows :=
      mem_claims_iff.mpr ⟨hmem.1, rfl, by rwa [hmem.2, hgrade]⟩
    rw [hcached claim hclaim, Option.some.injEq] at hrow
    exact ⟨hrow ▸ rfl, hrow ▸ hclaim⟩
  · rintro ⟨rfl, hclaim⟩
    exact ⟨hcached row hclaim, (mem_claims_iff.mp hclaim).2.2⟩

end All

theorem mem_named_iff :
    job ∈ (Std.ExtTreeSet.ofList (rows.map (·.job))).toList ↔ ∃ row ∈ rows, row.job = job := by
  rw [Std.ExtTreeSet.mem_toList, Std.ExtTreeSet.mem_ofList, List.contains_iff_mem, List.mem_map]

theorem mem_gone_of_not_mem_named {named : List String} (h : job ∈ index.jobs)
    (hnot : job ∉ named) : job ∈ index.jobs.filter fun job => !named.contains job := by
  rw [List.mem_filter]
  exact ⟨h, by simpa using hnot⟩

/-- Replacing all roles gives every slot to the lowest number that claims it. -/
theorem roleId_replaceAll (hdistinct : rows.Pairwise fun a b => a.id ≠ b.id)
    (hfiled : index.Filed) :
    (index.replaceAll rows).1.roleId job grade = some id ↔
      IsLowest (rows.filter (·.job = job)) grade id :=
  roleId_replaceAllIn hdistinct hfiled (fun _ => mem_named_iff)
    fun _ hjob hnot => mem_gone_of_not_mem_named hjob hnot

/-- Replacing all roles caches the rows that have their slot, and nothing else. -/
theorem role_replaceAll (hdistinct : rows.Pairwise fun a b => a.id ≠ b.id)
    (hfiled : index.Filed) :
    (index.replaceAll rows).1.role id = some row ↔ row.id = id ∧ row ∈ claims row.job rows :=
  role_replaceAllIn hdistinct hfiled (fun _ => mem_named_iff)
    fun _ hjob hnot => mem_gone_of_not_mem_named hjob hnot

end RoleIndex

end GradedAccess
