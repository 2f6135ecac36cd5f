import GradedAccess.Attribute.Value
import GradedAccess.Proofs.Tables
import Mathlib.Data.List.Nodup
import Mathlib.Order.Bounds.Defs

/-!
# The three views of a job grade list

A job grade list can be asked whether it allows a grade of a job, for the highest grade of a job,
and for the jobs it is about.  Different readers go by different views: limits count by the highest
grade, guards are made from the jobs, and a grade is looked up in the list itself.  They may only be
mixed if all of them show the same grades.

The grades of a job are those of the map that the list selects, whatever the other map holds
(`Admits`).  Each view chooses the map by itself, so each of them is compared with `allows` on its
own.  The two maps have different corners.  In a coarse list a job always has a grade, its ceiling,
even if that is below zero.  A fine-grained list may name grades in any order and more than once,
which neither the highest grade nor the jobs show, and it may name a job without any grade, and then
the job has no ceiling and is not among the jobs (`views_agree`).
-/

namespace GradedAccess

open Std (ExtTreeMap)

namespace JobGrades

variable {list : JobGrades} {job : String} {grade top : Grade}

/-! ## The grades of a job -/

/-- What a list admits by the map that it selects. -/
inductive Admits (list : JobGrades) (job : String) : Grade → Prop where
  /-- A coarse list admits the grades up to the ceiling of the job. -/
  | below {top grade : Grade} (hcoarse : list.fineGrained = false)
      (htop : list.jobs[job]? = some top) (hle : grade ≤ top) : Admits list job grade
  /-- A fine-grained list admits the grades that it names for the job. -/
  | named {grades : List Grade} {grade : Grade} (hfine : list.fineGrained = true)
      (hgrades : list.grades[job]? = some grades) (hmem : grade ∈ grades) : Admits list job grade

theorem Admits.allows (h : list.Admits job grade) : list.allows job grade = true := by
  cases h with
  | below hcoarse htop hle => simp [JobGrades.allows, hcoarse, htop, hle]
  | named hfine hgrades hmem => simp [JobGrades.allows, hfine, hgrades, hmem]

/-- A grade is allowed exactly when the selected map admits it. -/
theorem allows_iff_admits : list.allows job grade = true ↔ list.Admits job grade := by
  refine ⟨fun h => ?_, Admits.allows⟩
  cases hfine : list.fineGrained with
  | true =>
    simp only [allows, hfine, if_true, Option.any_eq_true, List.contains_iff_mem] at h
    obtain ⟨grades, hgrades, hmem⟩ := h
    exact Admits.named hfine hgrades hmem
  | false =>
    simp only [allows, hfine, if_false, Bool.false_eq_true, Option.any_eq_true,
      decide_eq_true_eq] at h
    obtain ⟨top, htop, hle⟩ := h
    exact Admits.below hfine htop hle

/-! ## The highest grade -/

/-- Of two grades the greater one is chosen. -/
instance : Std.LawfulOrderMax Grade where
  max_eq_or low high := by
    change (if low ≤ high then high else low) = low ∨ (if low ≤ high then high else low) = high
    split
    · exact Or.inr rfl
    · exact Or.inl rfl
  max_le_iff low high bound := by
    change (if low ≤ high then high else low) ≤ bound ↔ low ≤ bound ∧ high ≤ bound
    split
    · next hle => exact ⟨fun h => ⟨Std.le_trans hle h, h⟩, And.right⟩
    · next hlt => exact ⟨fun h => ⟨h, Std.le_trans (Std.le_of_lt (Std.not_le.mp hlt)) h⟩, And.left⟩

/-- The ceiling of a job is the highest grade that is allowed. -/
theorem ceiling_eq_some_iff :
    list.ceiling job = some top ↔
      list.allows job top = true ∧ ∀ grade, list.allows job grade = true → grade ≤ top := by
  cases hfine : list.fineGrained with
  | true =>
    simp only [ceiling, allows, hfine, if_true]
    cases list.grades[job]? with
    | none => simp
    | some grades =>
      simp only [Option.bind_some, Option.any_some, List.contains_iff_mem]
      exact List.max?_eq_some_iff
  | false =>
    simp only [ceiling, allows, hfine, if_false, Bool.false_eq_true]
    cases list.jobs[job]? with
    | none => simp
    | some highest =>
      simp only [Option.any_some, decide_eq_true_eq, Option.some.injEq]
      constructor
      · rintro rfl
        exact ⟨Std.le_refl _, fun _ hle => hle⟩
      · rintro ⟨hle, hhighest⟩
        exact Std.le_antisymm (hhighest highest (Std.le_refl _)) hle

/-- A job has no ceiling exactly when none of its grades is allowed. -/
theorem ceiling_eq_none_iff :
    list.ceiling job = none ↔ ∀ grade, list.allows job grade = false := by
  cases hfine : list.fineGrained with
  | true =>
    simp only [ceiling, allows, hfine, if_true]
    cases list.grades[job]? with
    | none => simp
    | some grades =>
      simp only [Option.bind_some, Option.any_some, List.max?_eq_none_iff,
        List.contains_eq_mem, decide_eq_false_iff_not]
      exact List.eq_nil_iff_forall_not_mem
  | false =>
    simp only [ceiling, allows, hfine, if_false, Bool.false_eq_true]
    cases list.jobs[job]? with
    | none => simp
    | some highest =>
      -- the ceiling itself is allowed, however low it is
      simp only [Option.any_some, decide_eq_false_iff_not, reduceCtorEq, false_iff]
      exact fun hforbidden => hforbidden highest (Std.le_refl _)

/-- A job with an allowed grade has a ceiling, and the grade is not above it. -/
theorem exists_ceiling_of_allows (h : list.allows job grade = true) :
    ∃ top, list.ceiling job = some top ∧ grade ≤ top := by
  cases htop : list.ceiling job with
  | some top => exact ⟨top, rfl, (ceiling_eq_some_iff.mp htop).2 grade h⟩
  | none =>
    have hforbidden := ceiling_eq_none_iff.mp htop grade
    rw [h] at hforbidden
    cases hforbidden

/-! ## The jobs -/

/-- The jobs of a list are those with a grade that is allowed. -/
theorem mem_codes_iff : job ∈ list.codes ↔ ∃ grade, list.allows job grade = true := by
  rw [codes]
  cases hfine : list.fineGrained with
  | true =>
    simp only [allows, hfine, if_true, ExtTreeMap.mem_keys, mem_iff_exists,
      ExtTreeMap.getElem?_filter', Option.filter_eq_some_iff, Option.any_eq_true]
    constructor
    · rintro ⟨grades, hgrades, hsome⟩
      rw [Bool.not_eq_true', List.isEmpty_eq_false_iff_exists_mem] at hsome
      obtain ⟨grade, hgrade⟩ := hsome
      exact ⟨grade, grades, hgrades, List.contains_iff_mem.mpr hgrade⟩
    · rintro ⟨grade, grades, hgrades, hgrade⟩
      refine ⟨grades, hgrades, ?_⟩
      rw [Bool.not_eq_true', List.isEmpty_eq_false_iff_exists_mem]
      exact ⟨grade, List.contains_iff_mem.mp hgrade⟩
  | false =>
    simp only [allows, hfine, if_false, Bool.false_eq_true, ExtTreeMap.mem_keys, mem_iff_exists,
      Option.any_eq_true]
    constructor
    · rintro ⟨top, htop⟩
      exact ⟨top, top, htop, decide_eq_true (Std.le_refl top)⟩
    · rintro ⟨grade, top, htop, -⟩
      exact ⟨top, htop⟩

/-- A job is listed once, however many of its grades are allowed. -/
theorem nodup_codes (list : JobGrades) : list.codes.Nodup := by
  rw [codes]
  split
  · exact nodup_keys _
  · exact nodup_keys _

/-! ## All three -/

/-- **The views of a list agree.**  The grades that are allowed are those of the selected map.  The
ceiling of a job is the greatest of them, and a job without one has no ceiling.  The entries of the
value are the jobs with an allowed grade, once each. -/
theorem views_agree (list : JobGrades) (job : String) :
    (∀ grade, list.allows job grade = true ↔ list.Admits job grade) ∧
    (∀ top, list.ceiling job = some top ↔
      IsGreatest {grade | list.allows job grade = true} top) ∧
    (list.ceiling job = none ↔ ∀ grade, list.allows job grade = false) ∧
    (job ∈ (AttributeValue.grades list).flat ↔ ∃ grade, list.allows job grade = true) ∧
    ((AttributeValue.grades list).flat.count job = 1 ↔
      ∃ grade, list.allows job grade = true) := by
  refine ⟨fun grade => allows_iff_admits, fun top => ceiling_eq_some_iff, ceiling_eq_none_iff,
    mem_codes_iff, ?_⟩
  have hcount : (AttributeValue.grades list).flat.count job =
      if job ∈ list.codes then 1 else 0 := (nodup_codes list).count
  rw [hcount, ← mem_codes_iff]
  simp

/-- The police with repeated grades, some of them below zero, and another job without any.  What is
left in the map of ceilings does not bring that job back. -/
theorem views_of_leftovers :
    let list : JobGrades :=
      { fineGrained := true
        jobs := .ofList [("doj", (9 : Grade)), ("fire", 2)]
        grades := .ofList [("police", [(-3 : Grade), 5, -1, 5]), ("doj", [])] }
    IsGreatest {grade | list.allows "police" grade = true} 5 ∧
      (∀ grade, list.allows "doj" grade = false) ∧
      (AttributeValue.grades list).flat = ["police"] ∧
      ∃ grade, list.allows "police" grade = true := by
  intro list
  have hflat : (AttributeValue.grades list).flat = ["police"] := by decide +kernel
  refine ⟨((views_agree list "police").2.1 5).mp (by decide +kernel),
    (views_agree list "doj").2.2.1.mp (by decide +kernel), hflat,
    (views_agree list "police").2.2.2.2.mp ?_⟩
  rw [hflat]
  decide

end JobGrades

end GradedAccess
