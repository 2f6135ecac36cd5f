import GradedAccess.Proofs.Attribute.Tightening

/-!
# What limits leave of a job grade list

A list of grades under its limits admits what it has admitted before and all limits admit as well.
How a limit admits a grade depends on the list and not on the limit, which counts by its ceilings
only, whether it is coarse or fine-grained.

* For a coarse list the limit has a ceiling above zero, and the grade is not above it.
* For a fine-grained list the grade is not above the ceiling.  A job without a ceiling is closed by
  the most a job may have, and left open by the valid grades.

So what is left is an intersection (`allows_check_iff`).  The grades that are left of a fine-grained
list stand in their old order, as often as before, and no job is left with an empty list.
-/

namespace GradedAccess

open Std (ExtTreeMap)

namespace JobGrades

variable {limit list : JobGrades} {valid most : Option JobGrades} {job : String} {grade : Grade}
variable {grades kept : List Grade}

/-! ## Limits -/

/-- The valid grades are a limit if they are given and not empty. -/
theorem all_validLimit (valid : Option JobGrades) (p : JobGrades → Bool) :
    (validLimit valid).all p = true ↔
      ∀ limit, valid = some limit → limit.isEmpty = false → p limit = true := by
  rw [Option.all_eq_true]
  simp only [validLimit, Option.filter_eq_some_iff, Bool.not_eq_true']
  exact ⟨fun h limit hvalid hentries => h limit ⟨hvalid, hentries⟩,
    fun h limit hlimit => h limit hlimit.1 hlimit.2⟩

/-- A limit admits a grade of a coarse list if it has a ceiling for the job that is above zero and
not below the grade. -/
theorem any_coarseLimit_iff :
    (limit.coarseLimit job).any (grade ≤ ·) = true ↔
      ∃ top, limit.ceiling job = some top ∧ 0 < top ∧ grade ≤ top := by
  rw [Option.any_eq_true]
  simp only [coarseLimit, Option.filter_eq_some_iff, decide_eq_true_eq, and_assoc]

theorem any_ceiling_iff :
    (limit.ceiling job).any (grade ≤ ·) = true ↔
      ∃ top, limit.ceiling job = some top ∧ grade ≤ top := by
  rw [Option.any_eq_true]
  simp only [decide_eq_true_eq]

theorem all_ceiling_iff :
    (limit.ceiling job).all (grade ≤ ·) = true ↔
      ∀ top, limit.ceiling job = some top → grade ≤ top := by
  rw [Option.all_eq_true]
  simp only [decide_eq_true_eq]

/-! ## The grades of a job -/

theorem upTo_eq_filter (top : Option Grade) (grades : List Grade) :
    upTo top grades = grades.filter fun grade => top.all (grade ≤ ·) := by
  cases top with
  | none => exact (List.filter_eq_self.mpr fun _ _ => rfl).symm
  | some top => rfl

/-- The grades that are kept of a job are those of its grades that are among the kept ones. -/
theorem eq_filter_of_admitted (h : admitted valid most job grades = some kept) :
    kept = grades.filter (kept.contains ·) := by
  rw [admitted, Option.ite_none_left_eq_some, Option.ite_none_left_eq_some,
    Option.some.injEq] at h
  obtain ⟨-, -, rfl⟩ := h
  rw [upTo_eq_filter, upTo_eq_filter, List.filter_filter]
  refine List.filter_congr fun grade hgrade => ?_
  rw [Bool.eq_iff_iff, List.contains_iff_mem, List.mem_filter]
  exact ⟨fun hkept => ⟨hgrade, hkept⟩, And.right⟩

theorem ne_nil_of_admitted (h : admitted valid most job grades = some kept) : kept ≠ [] := by
  rw [admitted, Option.ite_none_left_eq_some, Option.ite_none_left_eq_some,
    Option.some.injEq] at h
  obtain ⟨-, hkept, rfl⟩ := h
  rwa [List.isEmpty_iff] at hkept

/-- No job of a fine-grained list is left without grades. -/
theorem grades_check_ne_nil (hfine : list.fineGrained = true) (valid most : Option JobGrades)
    (job : String) : (list.check valid most).value.grades[job]? ≠ some [] := by
  intro h
  simp only [check, hfine, if_true, ExtTreeMap.getElem?_filterMap', Option.bind_eq_some_iff] at h
  obtain ⟨grades, -, hkept⟩ := h
  exact ne_nil_of_admitted hkept rfl

/-- The grades left of a job of a fine-grained list are those of its grades that are still
allowed. -/
theorem grades_check_eq_filter (hfine : list.fineGrained = true) (valid most : Option JobGrades)
    (job : String) :
    ((list.check valid most).value.grades[job]?).getD [] =
      (list.grades[job]?.getD []).filter ((list.check valid most).value.allows job ·) := by
  simp only [check, allows, hfine, if_true, ExtTreeMap.getElem?_filterMap']
  cases list.grades[job]? with
  | none => rfl
  | some grades =>
    rw [Option.bind_some, Option.getD_some]
    cases hkept : admitted (validLimit valid) most job grades with
    | none => exact (List.filter_eq_nil_iff.mpr fun _ _ => Bool.false_ne_true).symm
    | some kept => exact eq_filter_of_admitted hkept

/-! ## Both -/

/-- **Limits leave the intersection.**  What a list allows after a check is what it has allowed
before and all of its limits admit. -/
theorem allows_check_iff (list : JobGrades) (valid most : Option JobGrades) :
    (list.fineGrained = false → ∀ (job : String) (grade : Grade),
      (list.check valid most).value.allows job grade = true ↔
        list.allows job grade = true ∧
        (∀ limit, most = some limit →
          ∃ top, limit.ceiling job = some top ∧ 0 < top ∧ grade ≤ top) ∧
        ∀ limit, valid = some limit → limit.isEmpty = false →
          ∃ top, limit.ceiling job = some top ∧ 0 < top ∧ grade ≤ top) ∧
    (list.fineGrained = true →
      (∀ (job : String) (grade : Grade),
        (list.check valid most).value.allows job grade = true ↔
          list.allows job grade = true ∧
          (∀ limit, most = some limit → ∃ top, limit.ceiling job = some top ∧ grade ≤ top) ∧
          ∀ limit, valid = some limit → limit.isEmpty = false →
            ∀ top, limit.ceiling job = some top → grade ≤ top) ∧
      ∀ job : String,
        ((list.check valid most).value.grades[job]?).getD [] =
          (list.grades[job]?.getD []).filter ((list.check valid most).value.allows job ·) ∧
        (list.check valid most).value.grades[job]? ≠ some []) := by
  constructor
  · intro hcoarse job grade
    rw [allows_check_of_coarse hcoarse, Bool.and_eq_true, Bool.and_eq_true, all_validLimit,
      Option.all_eq_true, and_assoc]
    simp only [any_coarseLimit_iff]
  · intro hfine
    refine ⟨fun job grade => ?_, fun job => ⟨grades_check_eq_filter hfine valid most job,
      grades_check_ne_nil hfine valid most job⟩⟩
    rw [allows_check_of_fine hfine, Bool.and_eq_true, Bool.and_eq_true, all_validLimit,
      Option.all_eq_true, and_assoc]
    simp only [any_ceiling_iff, all_ceiling_iff]

/-- Grades of the police, with a repetition, under a coarse limit for the police alone: those above
the limit are dropped and the others stay in their order, and the other job is dropped.  In a coarse
list a job whose ceiling is zero is dropped as well. -/
theorem allows_check_squads :
    let fine : JobGrades := { fineGrained := true
                              grades := .ofList [("police", [(3 : Grade), 9, 1, 3]), ("doj", [1])] }
    let coarse : JobGrades := { jobs := .ofList [("police", (9 : Grade)), ("doj", 1)] }
    let most : JobGrades := { jobs := .ofList [("police", (4 : Grade))] }
    let valid : JobGrades := { jobs := .ofList [("police", (6 : Grade)), ("doj", 0)] }
    fine.fineGrained = true ∧ coarse.fineGrained = false ∧
      (fine.check (some valid) (some most)).value.grades["police"]? = some [3, 1, 3] ∧
      (fine.check (some valid) (some most)).value.allows "police" 3 = true ∧
      (coarse.check (some valid) none).value.allows "doj" 0 = false := by
  intro fine coarse most valid
  have hkept : (fine.check (some valid) (some most)).value.allows "police" 3 = true := by
    refine (((allows_check_iff fine (some valid) (some most)).2 rfl).1 "police" 3).mpr ⟨?_, ?_, ?_⟩
    · decide +kernel
    · rintro _ ⟨⟩
      exact ⟨4, by decide +kernel, by decide⟩
    · rintro _ ⟨⟩ - top htop
      have htop' : valid.ceiling "police" = some 6 := by decide +kernel
      cases htop'.symm.trans htop
      decide
  have hdropped : (coarse.check (some valid) none).value.allows "doj" 0 = false := by
    rw [← Bool.not_eq_true, ((allows_check_iff coarse (some valid) none).1 rfl)]
    rintro ⟨-, -, hvalid⟩
    obtain ⟨top, htop, hpositive, -⟩ := hvalid valid rfl (by decide +kernel)
    have htop' : valid.ceiling "doj" = some 0 := by decide +kernel
    cases htop'.symm.trans htop
    exact absurd hpositive (by decide)
  exact ⟨rfl, rfl, by decide +kernel, hkept, hdropped⟩

end JobGrades

end GradedAccess
