import GradedAccess.Proofs.Roles.Placement

/-!
# Changes of the role index

Everything that can happen to a role index, as one type.  A history of an index is a list of such
changes, and `after` is the index it leads to.  The rows of a change are arbitrary, apart from
having distinct numbers: they may belong to other jobs than the one that is replaced, claim one
slot together, claim slots of cached roles, or move cached roles to other grades and jobs.  When
all roles are replaced, the jobs are visited in any order.

Two facts survive every such change (`Sound`): cached roles are filed under their own numbers, and
every slot leads to the role that belongs there.  So whatever has happened, a chain holds just the
roles in the slots of its job up to its grade, each once and by ascending grade
(`slots_of_history`).
-/

namespace GradedAccess

open Std (ExtTreeMap ExtTreeSet)

namespace RoleIndex

/-- Something that is done to a role index. -/
inductive Change where
  | upsert (row : Role)
  | remove (id : RoleId)
  | replaceJob (job : String) (rows : List Role)
  /-- All roles are replaced.  `visit` says in which order some jobs are visited. -/
  | replaceAll (visit : List String → List String) (rows : List Role)

/-- Whether the rows of a change have distinct numbers, and every job is visited once that is to
be visited at all. -/
def Change.Proper : Change → Prop
  | .upsert _ | .remove _ => True
  | .replaceJob _ rows => rows.Pairwise fun a b => a.id ≠ b.id
  | .replaceAll visit rows =>
    (rows.Pairwise fun a b => a.id ≠ b.id) ∧ ∀ jobs, (visit jobs).Perm jobs

/-- The index after a change. -/
def apply (index : RoleIndex) : Change → RoleIndex
  | .upsert row => index.upsert row
  | .remove id => index.remove id
  | .replaceJob job rows => (index.replaceJob job rows).1
  | .replaceAll visit rows =>
    let named := (ExtTreeSet.ofList (rows.map (·.job))).toList
    let gone := index.jobs.filter fun job => !named.contains job
    (index.replaceAllIn (visit gone) (visit named) rows).1

/-- The index after some changes, one after another. -/
def after (index : RoleIndex) (changes : List Change) : RoleIndex := changes.foldl apply index

variable {index : RoleIndex} {change : Change} {changes : List Change} {rows : List Role}
variable {visit : List String → List String} {job : String} {id : RoleId}

@[simp] theorem after_nil : index.after [] = index := rfl

@[simp] theorem after_concat (changes : List Change) (last : Change) :
    index.after (changes ++ [last]) = (index.after changes).apply last := by
  rw [after, List.foldl_append]
  rfl

/-! ## Visiting the jobs in some order -/

/-- The jobs that are filled are those of the rows, in whatever order they are visited. -/
theorem mem_visit_named_iff (hvisit : ∀ jobs, (visit jobs).Perm jobs) :
    job ∈ visit (ExtTreeSet.ofList (rows.map (·.job))).toList ↔ ∃ row ∈ rows, row.job = job := by
  rw [(hvisit _).mem_iff, mem_named_iff]

/-- A job with a role is emptied or filled, in whatever order the jobs are visited. -/
theorem mem_visit_gone (hvisit : ∀ jobs, (visit jobs).Perm jobs) {named : List String}
    (hjob : job ∈ index.jobs) (hnot : job ∉ visit named) :
    job ∈ visit (index.jobs.filter fun job => !named.contains job) := by
  rw [(hvisit _).mem_iff] at hnot ⊢
  exact mem_gone_of_not_mem_named hjob hnot

/-! ## What lasts -/

/-- Every change keeps cached roles filed under their numbers, even if its rows share some. -/
theorem Filed.apply (h : index.Filed) (change : Change) : (index.apply change).Filed := by
  cases change with
  | upsert row => exact h.upsert row
  | remove id => exact h.remove id
  | replaceJob job rows => exact h.replaceJob job rows
  | replaceAll visit rows => exact h.replaceAllIn _ _ rows

theorem Filed.after (h : index.Filed) (changes : List Change) : (index.after changes).Filed := by
  induction changes using List.reverseRecOn with
  | nil => exact h
  | append_singleton changes last ih =>
    rw [after_concat]
    exact ih.apply last

/-- Whether cached roles are filed under their own numbers and every slot leads to the role that
belongs there. -/
structure Sound (index : RoleIndex) : Prop where
  filed : index.Filed
  placed : index.Placed

theorem sound_empty : Sound {} where
  filed id row hrow := by simp [role] at hrow
  placed job grade id hslot := by simp [roleId] at hslot

/-- Every change keeps an index sound. -/
theorem Sound.apply (h : index.Sound) (hproper : change.Proper) : (index.apply change).Sound := by
  refine ⟨h.filed.apply change, ?_⟩
  cases change with
  | upsert row => exact h.placed.upsert h.filed row
  | remove id => exact h.placed.remove h.filed id
  | replaceJob job rows => exact h.placed.replaceJob hproper job
  | replaceAll visit rows =>
    exact placed_replaceAllIn hproper.1 h.filed (fun _ => mem_visit_named_iff hproper.2)
      fun _ => mem_visit_gone hproper.2

/-- Every history leads from a sound index to a sound one. -/
theorem Sound.after (h : index.Sound) (hproper : ∀ change ∈ changes, change.Proper) :
    (index.after changes).Sound := by
  induction changes using List.reverseRecOn with
  | nil => exact h
  | append_singleton changes last ih =>
    rw [List.forall_mem_append] at hproper
    rw [after_concat]
    exact (ih hproper.1).apply (hproper.2 last (List.mem_singleton_self last))

/-! ## Chains -/

/-- In a sound index a chain is in ascending order of the grades of its roles. -/
theorem Sound.pairwise_chain (h : index.Sound) (job : String) (grade : Grade) :
    (index.chain job grade).Pairwise fun a b => ∃ low high : Grade, low < high ∧
      index.role a = some ⟨a, job, low⟩ ∧ index.role b = some ⟨b, job, high⟩ := by
  rw [chain, List.pairwise_filterMap]
  refine (PairTable.pairwise_row index.slots job).imp_of_mem ?_
  intro slot slot' hmem hmem' hlt a ha b hb
  rw [Option.ite_none_right_eq_some, Option.some.injEq] at ha hb
  obtain ⟨-, rfl⟩ := ha
  obtain ⟨-, rfl⟩ := hb
  exact ⟨slot.1, slot'.1, Std.compare_eq_lt.mp hlt, h.placed (PairTable.mem_row_iff.mp hmem),
    h.placed (PairTable.mem_row_iff.mp hmem')⟩

/-- In a sound index a chain has every role once. -/
theorem Sound.nodup_chain (h : index.Sound) (job : String) (grade : Grade) :
    (index.chain job grade).Nodup := by
  refine (h.pairwise_chain job grade).imp ?_
  rintro a b ⟨low, high, hlt, ha, hb⟩ rfl
  rw [ha, Option.some.injEq, Role.mk.injEq] at hb
  rw [hb.2.2] at hlt
  exact Std.lt_irrefl hlt

theorem nodup_jobs (index : RoleIndex) : index.jobs.Nodup := by
  rw [jobs, PairTable.firsts]
  exact nodup_toList _

/-- **The slots of an index that has a history.**  Every slot leads to the role that has its job and
its grade.  The jobs are those with a role in a slot, each once.  A chain ascends by grade, has no
role twice, and holds the roles in the slots of its job up to its grade. -/
theorem slots_of_history (hproper : ∀ change ∈ changes, change.Proper) :
    let index := after {} changes
    (∀ job grade id, index.roleId job grade = some id → index.role id = some ⟨id, job, grade⟩) ∧
    (index.jobs.Nodup ∧
      ∀ job, job ∈ index.jobs ↔ ∃ grade id, index.roleId job grade = some id) ∧
    ∀ job grade,
      ((index.chain job grade).Pairwise fun a b => ∃ low high : Grade, low < high ∧
        index.role a = some ⟨a, job, low⟩ ∧ index.role b = some ⟨b, job, high⟩) ∧
      (index.chain job grade).Nodup ∧
      ∀ id, id ∈ index.chain job grade ↔
        ∃ own ≤ grade, index.roleId job own = some id ∧ index.role id = some ⟨id, job, own⟩ := by
  intro index
  have hsound : index.Sound := sound_empty.after hproper
  refine ⟨fun job grade id hslot => hsound.placed hslot, ⟨nodup_jobs index, fun job => mem_jobs_iff⟩,
    fun job grade => ⟨hsound.pairwise_chain job grade, hsound.nodup_chain job grade, fun id => ?_⟩⟩
  rw [mem_chain_iff]
  constructor
  · rintro ⟨own, hown, hslot⟩
    exact ⟨own, hown, hslot, hsound.placed hslot⟩
  · rintro ⟨own, hown, hslot, -⟩
    exact ⟨own, hown, hslot⟩

end RoleIndex

end GradedAccess
