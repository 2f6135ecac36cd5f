import GradedAccess.Proofs.Roles.Change

/-!
# The index after all roles have been replaced

Replacing all roles goes through the jobs one by one: it empties those that no row names and fills
the others, in an order that nobody chooses.  On the way roles move between jobs that have been
visited and jobs that are still to come, and the index it starts from may hold displaced roles.

Nothing of this shows afterwards.  Of the rows for one job and one grade the one with the lowest
number has the slot (`HasSlot`).  The index holds these rows and no others, and its jobs are those
of the rows (`index_after_renewal`).  So the index is the one that the rows make of an empty index,
whatever the earlier index was and in whatever order the jobs were visited.
-/

namespace GradedAccess

open Std (ExtTreeMap)

namespace RoleIndex

variable {index index' : RoleIndex} {rows : List Role} {row : Role} {job : String} {grade : Grade}
variable {id : RoleId} {gone named : List String}

/-! ## The row that has a slot -/

/-- Whether a row has the lowest number of the rows for its job and its grade. -/
structure HasSlot (rows : List Role) (row : Role) : Prop where
  listed : row ∈ rows
  lowest : ∀ other ∈ rows, other.job = row.job → other.grade = row.grade →
    row.id.num ≤ other.id.num

/-- Identifiers that do not come before a number are not below it. -/
theorem compare_ne_lt_iff {id id' : RoleId} : compare id id' ≠ .lt ↔ id'.num ≤ id.num := by
  rw [Id.compare_eq_compare_num, ne_eq, Std.compare_eq_lt, Std.not_lt]

/-- The claims of a job are the rows that have its slots. -/
theorem mem_claims_iff_hasSlot : row ∈ claims row.job rows ↔ HasSlot rows row := by
  rw [mem_claims_iff]
  constructor
  · rintro ⟨hlisted, -, -, hlow⟩
    refine ⟨hlisted, fun other hmem hjob hgrade => compare_ne_lt_iff.mp ?_⟩
    exact hlow other (List.mem_filter.mpr ⟨hmem, decide_eq_true hjob⟩) hgrade
  · rintro ⟨hlisted, hlow⟩
    refine ⟨hlisted, rfl, ⟨row, List.mem_filter.mpr ⟨hlisted, decide_eq_true rfl⟩, rfl, rfl⟩, ?_⟩
    intro other hmem hgrade
    rw [List.mem_filter, decide_eq_true_eq] at hmem
    exact compare_ne_lt_iff.mpr (hlow other hmem.1 hmem.2 hgrade)

/-- The lowest number of a slot is that of the row that has it. -/
theorem isLowest_iff_hasSlot :
    IsLowest (rows.filter (·.job = job)) grade id ↔
      ∃ row, HasSlot rows row ∧ row.job = job ∧ row.grade = grade ∧ row.id = id := by
  constructor
  · intro hlow
    have hclaim := hlow.exists_claim
    exact ⟨⟨id, job, grade⟩, mem_claims_iff_hasSlot.mp hclaim, rfl, rfl, rfl⟩
  · rintro ⟨row, hslot, rfl, rfl, rfl⟩
    exact (mem_claims_iff.mp (mem_claims_iff_hasSlot.mpr hslot)).2.2

/-- Where a row claims a slot, some row has it. -/
theorem exists_hasSlot (hmem : row ∈ rows) :
    ∃ holder, HasSlot rows holder ∧ holder.job = row.job ∧ holder.grade = row.grade := by
  rcases lowest_spec (rows.filter (·.job = row.job)) row.grade with ⟨-, hnone⟩ | ⟨id, -, hlow⟩
  · exact absurd rfl (hnone row (List.mem_filter.mpr ⟨hmem, decide_eq_true rfl⟩))
  · obtain ⟨holder, hslot, hjob, hgrade, -⟩ := isLowest_iff_hasSlot.mp hlow
    exact ⟨holder, hslot, hjob, hgrade⟩

/-! ## Indexes with the same lookups -/

/-- An index is known by what is found in it. -/
theorem ext_lookups (hrole : ∀ id, index.role id = index'.role id)
    (hslot : ∀ job grade, index.roleId job grade = index'.roleId job grade) : index = index' := by
  obtain ⟨roles, slots⟩ := index
  obtain ⟨roles', slots'⟩ := index'
  rw [mk.injEq]
  exact ⟨ExtTreeMap.ext_getElem? fun {id} => hrole id,
    ExtTreeMap.ext_getElem? fun {slot} => hslot slot.1 slot.2⟩

/-! ## All roles -/

/-- Whether some jobs are those that a replacement of all roles goes through: it empties the jobs of
the index that no row names, and fills those that rows name. -/
structure Visits (index : RoleIndex) (rows : List Role) (gone named : List String) : Prop where
  gone : ∀ job, job ∈ gone ↔ job ∈ index.jobs ∧ ∀ row ∈ rows, row.job ≠ job
  named : ∀ job, job ∈ named ↔ ∃ row ∈ rows, row.job = job

/-- A job of the index that is not filled is emptied. -/
theorem Visits.mem_gone (h : Visits index rows gone named) (hjob : job ∈ index.jobs)
    (hnot : job ∉ named) : job ∈ gone := by
  refine (h.gone job).mpr ⟨hjob, fun row hmem hown => hnot ?_⟩
  exact (h.named job).mpr ⟨row, hmem, hown⟩

section Renewal

variable (hdistinct : rows.Pairwise fun a b => a.id ≠ b.id) (hfiled : index.Filed)
  (hvisits : Visits index rows gone named)

include hdistinct hfiled hvisits

/-- After all roles have been replaced, a slot leads to the row that has it. -/
theorem roleId_renewed_iff :
    (index.replaceAllIn gone named rows).1.roleId job grade = some id ↔
      ∃ row, HasSlot rows row ∧ row.job = job ∧ row.grade = grade ∧ row.id = id := by
  rw [roleId_replaceAllIn hdistinct hfiled hvisits.named fun _ => hvisits.mem_gone]
  exact isLowest_iff_hasSlot

/-- After all roles have been replaced, the rows that have a slot are cached. -/
theorem role_renewed_iff :
    (index.replaceAllIn gone named rows).1.role id = some row ↔ HasSlot rows row ∧ row.id = id := by
  rw [role_replaceAllIn hdistinct hfiled hvisits.named fun _ => hvisits.mem_gone,
    mem_claims_iff_hasSlot]
  exact and_comm

/-- A slot is empty if no row claims it. -/
theorem roleId_renewed_eq_none_iff :
    (index.replaceAllIn gone named rows).1.roleId job grade = none ↔
      ∀ row ∈ rows, ¬(row.job = job ∧ row.grade = grade) := by
  rw [Option.eq_none_iff_forall_ne_some]
  simp only [ne_eq, roleId_renewed_iff hdistinct hfiled hvisits]
  constructor
  · rintro hnone row hmem ⟨rfl, rfl⟩
    obtain ⟨holder, hslot, hjob, hgrade⟩ := exists_hasSlot hmem
    exact hnone holder.id ⟨holder, hslot, hjob, hgrade, rfl⟩
  · rintro hnone id ⟨row, hslot, hjob, hgrade, -⟩
    exact hnone row hslot.listed ⟨hjob, hgrade⟩

/-- The jobs are those of the rows. -/
theorem mem_jobs_renewed_iff :
    job ∈ (index.replaceAllIn gone named rows).1.jobs ↔ ∃ row ∈ rows, row.job = job := by
  simp only [mem_jobs_iff, roleId_renewed_iff hdistinct hfiled hvisits]
  constructor
  · rintro ⟨-, -, row, hslot, hjob, -⟩
    exact ⟨row, hslot.listed, hjob⟩
  · rintro ⟨row, hmem, rfl⟩
    obtain ⟨holder, hslot, hjob, -⟩ := exists_hasSlot hmem
    exact ⟨holder.grade, holder.id, holder, hslot, hjob, rfl, rfl⟩

end Renewal

/-- The jobs that a replacement goes through by itself. -/
theorem visits_replaceAll (index : RoleIndex) (rows : List Role) :
    let named := (Std.ExtTreeSet.ofList (rows.map (·.job))).toList
    Visits index rows (index.jobs.filter fun job => !named.contains job) named := by
  intro named
  refine ⟨fun job => ?_, fun _ => mem_named_iff⟩
  rw [List.mem_filter, Bool.not_eq_true', ← Bool.not_eq_true, List.contains_iff_mem, mem_named_iff]
  simp only [not_exists, not_and]

/-- **All roles replaced.**  Whatever has been done to an index and in whatever order the jobs are
visited: a slot leads to the lowest number that claims it, and to none if no row does; a row is
cached if it has its slot, and nothing else is; and the jobs are those of the rows.  So the index is
the one that the rows make of an empty index. -/
theorem index_after_renewal (changes : List Change) {rows : List Role}
    (hdistinct : rows.Pairwise fun a b => a.id ≠ b.id) {gone named : List String}
    (hvisits : Visits (after {} changes) rows gone named) :
    let index := ((after {} changes).replaceAllIn gone named rows).1
    (∀ job grade id, index.roleId job grade = some id ↔
      ∃ row, HasSlot rows row ∧ row.job = job ∧ row.grade = grade ∧ row.id = id) ∧
    (∀ job grade, index.roleId job grade = none ↔
      ∀ row ∈ rows, ¬(row.job = job ∧ row.grade = grade)) ∧
    (∀ id row, index.role id = some row ↔ HasSlot rows row ∧ row.id = id) ∧
    (index.jobs.Nodup ∧ ∀ job, job ∈ index.jobs ↔ ∃ row ∈ rows, row.job = job) ∧
    index = (replaceAll {} rows).1 := by
  intro index
  have hfiled : (after {} changes).Filed := sound_empty.filed.after changes
  have hfresh := visits_replaceAll {} rows
  refine ⟨fun _ _ _ => roleId_renewed_iff hdistinct hfiled hvisits,
    fun _ _ => roleId_renewed_eq_none_iff hdistinct hfiled hvisits,
    fun _ _ => role_renewed_iff hdistinct hfiled hvisits,
    ⟨nodup_jobs index, fun _ => mem_jobs_renewed_iff hdistinct hfiled hvisits⟩,
    ext_lookups (fun id => ?_) fun job grade => ?_⟩
  · ext row
    exact (role_renewed_iff hdistinct hfiled hvisits).trans
      (role_renewed_iff hdistinct sound_empty.filed hfresh).symm
  · ext id
    exact (roleId_renewed_iff hdistinct hfiled hvisits).trans
      (roleId_renewed_iff hdistinct sound_empty.filed hfresh).symm

/-- Officers of whom one has been displaced by another, and who are then listed anew.  Two of them
are listed for one grade of the police, and a third one moves to a job that is visited before the
one it comes from. -/
theorem index_after_roll_call :
    let changes : List Change :=
      [.upsert ⟨⟨1⟩, "police", 5⟩, .upsert ⟨⟨2⟩, "police", 5⟩, .upsert ⟨⟨3⟩, "taxi", 1⟩,
        .upsert ⟨⟨4⟩, "police", 3⟩]
    let rows : List Role := [⟨⟨2⟩, "police", 7⟩, ⟨⟨1⟩, "police", 7⟩, ⟨⟨4⟩, "doj", 3⟩]
    let index := ((after {} changes).replaceAllIn ["taxi"] ["doj", "police"] rows).1
    ⟨1⟩ ∈ (after {} changes).displaced ∧ index.roleId "police" 7 = some ⟨1⟩ ∧
      index.role ⟨2⟩ = none ∧ index.role ⟨3⟩ = none ∧ index = (replaceAll {} rows).1 := by
  intro changes rows index
  have hdistinct : rows.Pairwise fun a b => a.id ≠ b.id := by decide
  have hjobs : (after {} changes).jobs = ["police", "taxi"] := by decide +kernel
  have hvisits : Visits (after {} changes) rows ["taxi"] ["doj", "police"] := by
    refine ⟨fun job => ?_, fun job => ?_⟩
    · rw [hjobs]
      simp only [rows, List.mem_cons, List.not_mem_nil, or_false, forall_eq_or_imp, forall_eq]
      constructor
      · rintro rfl
        decide
      · rintro ⟨rfl | rfl, hother, -, -⟩
        · exact absurd rfl hother
        · rfl
    · simp only [rows, List.mem_cons, List.not_mem_nil, or_false, exists_eq_or_imp,
        exists_eq_left]
      constructor
      · rintro (rfl | rfl) <;> simp
      · rintro (rfl | rfl | rfl) <;> simp
  obtain ⟨hslot, -, hrole, -, hfresh⟩ := index_after_renewal changes hdistinct hvisits
  have hcached : ∀ id row, index.role id = some row → id = ⟨1⟩ ∨ id = ⟨4⟩ := by
    intro id row hrow
    obtain ⟨⟨hlisted, hlow⟩, rfl⟩ := (hrole id row).mp hrow
    simp only [rows, List.mem_cons, List.not_mem_nil, or_false] at hlisted
    rcases hlisted with rfl | rfl | rfl
    · -- Officer 2 is listed, but for a grade that officer 1 claims too.
      exact absurd (hlow ⟨⟨1⟩, "police", 7⟩ (by decide) rfl rfl) (by decide)
    · exact .inl rfl
    · exact .inr rfl
  refine ⟨by decide +kernel, (hslot "police" 7 ⟨1⟩).mpr ?_, ?_, ?_, hfresh⟩
  · exact ⟨⟨⟨1⟩, "police", 7⟩, ⟨by decide, by decide⟩, rfl, rfl, rfl⟩
  · exact Option.eq_none_iff_forall_ne_some.mpr fun row hrow =>
      absurd (hcached ⟨2⟩ row hrow) (by decide)
  · exact Option.eq_none_iff_forall_ne_some.mpr fun row hrow =>
      absurd (hcached ⟨3⟩ row hrow) (by decide)

end RoleIndex

end GradedAccess
