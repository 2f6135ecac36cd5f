import GradedAccess.Proofs.Attribute.Admission
import GradedAccess.Proofs.Attribute.Views

/-!
# Maxima with gaps

A check keeps a list of grades below the ceilings of the most a job may have.  The ceiling of a job
is the highest grade that is allowed for it (`ceiling_eq_some_iff`), so whether a list below the
ceilings is also within what is allowed depends on the maximum alone.

A coarse maximum allows every grade up to its ceilings.  A fine-grained one names the grades it
allows and may leave out some below the highest.  A check does not see such a gap, since a limit
counts by its ceilings whichever way it is given, and what a list has there is kept.

So what is allowed after a check is allowed by the maximum, or lies in a gap of a fine-grained
maximum, and all lists end up within their maximum exactly when it has no gaps
(`allows_check_below`).
-/

namespace GradedAccess

open Std (ExtTreeMap)

namespace JobGrades

variable {list most : JobGrades} {valid : Option JobGrades} {job : String} {grade top : Grade}

/-! ## Gaps -/

/-- Whether a list allows every grade below one that it allows. -/
def Gapless (list : JobGrades) : Prop :=
  ∀ ⦃job : String⦄ ⦃grade higher : Grade⦄, grade ≤ higher →
    list.allows job higher = true → list.allows job grade = true

/-- A coarse list has no gaps. -/
theorem gapless_of_coarse (hcoarse : list.fineGrained = false) : list.Gapless := by
  intro job grade higher hle hhigher
  simp only [allows, hcoarse, if_false, Bool.false_eq_true, Option.any_eq_true,
    decide_eq_true_eq] at hhigher ⊢
  obtain ⟨top, htop, hbelow⟩ := hhigher
  exact ⟨top, htop, Std.le_trans hle hbelow⟩

/-! ## What a check keeps below a maximum -/

/-- What is allowed after a check is not above the ceiling of the maximum. -/
theorem below_ceiling_of_check
    (h : (list.check valid (some most)).value.allows job grade = true) :
    ∃ top, most.ceiling job = some top ∧ grade ≤ top := by
  cases hfine : list.fineGrained with
  | true =>
    rw [allows_check_of_fine hfine, Bool.and_eq_true, Bool.and_eq_true, Option.all_some] at h
    exact any_ceiling_iff.mp h.1.2
  | false =>
    rw [allows_check_of_coarse hfine, Bool.and_eq_true, Bool.and_eq_true, Option.all_some] at h
    obtain ⟨top, htop, -, hle⟩ := any_coarseLimit_iff.mp h.1.2
    exact ⟨top, htop, hle⟩

/-- A grade of a fine-grained list that is not above the ceiling of the maximum is kept. -/
theorem allows_check_single (htop : most.ceiling job = some top) (hle : grade ≤ top) :
    let list : JobGrades := { fineGrained := true, grades := .ofList [(job, [grade])] }
    (list.check none (some most)).value.allows job grade = true := by
  intro list
  have hallowed : list.allows job grade = true := by
    simp [list, allows]
  rw [allows_check_of_fine rfl, hallowed, Option.all_some, any_ceiling_iff.mpr ⟨top, htop, hle⟩]
  rfl

/-- **A checked list stays below its maximum.**  What is allowed after a check is allowed by the
maximum, or else the maximum is fine-grained and allows a higher grade of the job.  Lists of both
kinds are all within what a maximum allows exactly when it has no gaps. -/
theorem allows_check_below (most : JobGrades) :
    (∀ (list : JobGrades) (valid : Option JobGrades) (job : String) (grade : Grade),
      (list.check valid (some most)).value.allows job grade = true →
        most.allows job grade = true ∨
          most.fineGrained = true ∧ ∃ higher, grade < higher ∧ most.allows job higher = true) ∧
    ((∀ (list : JobGrades) (valid : Option JobGrades) (job : String) (grade : Grade),
      (list.check valid (some most)).value.allows job grade = true →
        most.allows job grade = true) ↔ most.Gapless) := by
  refine ⟨fun list valid job grade h => ?_, fun hwithin job grade higher hle hhigher => ?_,
    fun hgapless list valid job grade h => ?_⟩
  · obtain ⟨top, htop, hle⟩ := below_ceiling_of_check h
    have hallowed := (ceiling_eq_some_iff.mp htop).1
    cases hfine : most.fineGrained with
    | false => exact Or.inl (gapless_of_coarse hfine hle hallowed)
    | true =>
      by_cases heq : grade = top
      · exact Or.inl (heq ▸ hallowed)
      · exact Or.inr ⟨rfl, top, Std.lt_of_le_of_ne hle heq, hallowed⟩
  · -- a list with this grade alone is left as it is
    obtain ⟨top, htop, hbelow⟩ := exists_ceiling_of_allows hhigher
    exact hwithin _ none job grade (allows_check_single htop (Std.le_trans hle hbelow))
  · obtain ⟨top, htop, hle⟩ := below_ceiling_of_check h
    exact hgapless hle (ceiling_eq_some_iff.mp htop).1

/-- A maximum that names two grades of the police does not keep a list from the grade between
them, however the list is given. -/
theorem allows_check_in_gap :
    let most : JobGrades :=
      { fineGrained := true, grades := .ofList [("police", [(2 : Grade), 5])] }
    let fine : JobGrades :=
      { fineGrained := true, grades := .ofList [("police", [(2 : Grade), 3, 5])] }
    let coarse : JobGrades := { jobs := .ofList [("police", (4 : Grade))] }
    (fine.check none (some most)).value.allows "police" 3 = true ∧
      (coarse.check none (some most)).value.allows "police" 3 = true ∧
      most.allows "police" 3 = false := by
  decide +kernel

/-- The grade in the gap is below one that the maximum names. -/
theorem allows_check_below_higher :
    let most : JobGrades :=
      { fineGrained := true, grades := .ofList [("police", [(2 : Grade), 5])] }
    let fine : JobGrades :=
      { fineGrained := true, grades := .ofList [("police", [(2 : Grade), 3, 5])] }
    (fine.check none (some most)).value.allows "police" 3 = true ∧
      (∃ higher, (3 : Grade) < higher ∧ most.allows "police" higher = true) ∧ ¬most.Gapless := by
  intro most fine
  have hkept : (fine.check none (some most)).value.allows "police" 3 = true := by decide +kernel
  have hgap : most.allows "police" 3 = false := by decide +kernel
  refine ⟨hkept, ?_, fun hgapless => ?_⟩
  · rcases (allows_check_below most).1 fine none "police" 3 hkept with hallowed | ⟨-, hhigher⟩
    · rw [hgap] at hallowed
      cases hallowed
    · exact hhigher
  · have hallowed := (allows_check_below most).2.mpr hgapless fine none "police" 3 hkept
    rw [hgap] at hallowed
    cases hallowed

end JobGrades

end GradedAccess
