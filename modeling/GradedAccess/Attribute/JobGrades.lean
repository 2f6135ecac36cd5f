import GradedAccess.Attribute.StringList
import Std.Data.ExtTreeMap

/-!
# Job grade lists

A job grade list says which grades of which jobs it admits, in one of two ways.  A coarse list has
a ceiling for each job and admits every grade up to it; a fine-grained list names the grades it
admits.  `fineGrained` selects the map that counts.  The other map may hold something all the
same, left there by whoever wrote the list, and only `check` clears it.

Three views tell what a list admits: `allows` for one grade of one job, `ceiling` for the highest
grade of a job, and `codes` for the jobs with any grade at all.

`check` keeps a list to the same two limits as a string list, job by job and through the limits'
ceilings only, so a limit may be coarse or fine-grained whichever way the list is.

* In a coarse list a ceiling is lowered to the limit's, and a job is dropped where the limit has no
  ceiling above zero.
* In a fine-grained list the grades above the limit's ceiling are dropped.  A job without a ceiling
  is dropped under `most`; under `valid` it is left alone.  A job left without grades is dropped.
-/

namespace GradedAccess

open Std (ExtTreeMap)

/-- The rank inside a job. -/
abbrev Grade := Int32

/-- Which grades of which jobs are admitted. -/
structure JobGrades where
  fineGrained : Bool := false
  /-- The highest grade of each job of a coarse list. -/
  jobs : ExtTreeMap String Grade := ∅
  /-- The grades of each job of a fine-grained list. -/
  grades : ExtTreeMap String (List Grade) := ∅
  deriving DecidableEq

namespace JobGrades

/-- Whether neither map holds anything. -/
def isEmpty (list : JobGrades) : Bool := list.jobs.isEmpty && list.grades.isEmpty

/-- The highest grade admitted for a job. -/
def ceiling (list : JobGrades) (job : String) : Option Grade :=
  if list.fineGrained then list.grades[job]?.bind List.max?
  else list.jobs[job]?

/-- Whether a grade of a job is admitted. -/
def allows (list : JobGrades) (job : String) (grade : Grade) : Bool :=
  if list.fineGrained then list.grades[job]?.any (·.contains grade)
  else list.jobs[job]?.any (grade ≤ ·)

/-- The jobs with an admitted grade, in ascending order. -/
def codes (list : JobGrades) : List String :=
  if list.fineGrained then (list.grades.filter fun _ grades => !grades.isEmpty).keys
  else list.jobs.keys

/-- The limit a list of valid grades sets: none while it is empty. -/
def validLimit (valid : Option JobGrades) : Option JobGrades :=
  valid.filter (!·.isEmpty)

/-! ## Coarse lists -/

/-- The ceiling a limit leaves to a coarse list: one that is not above zero leaves nothing. -/
def coarseLimit (limit : JobGrades) (job : String) : Option Grade :=
  (limit.ceiling job).filter (0 < ·)

/-- Ceilings lowered to a limit's, without the jobs the limit leaves nothing to. -/
def lowered (limit : JobGrades) (jobs : ExtTreeMap String Grade) : ExtTreeMap String Grade :=
  jobs.filterMap fun job grade =>
    (limit.coarseLimit job).map fun top => if top < grade then top else grade

/-- Whether a limit drops or lowers any ceiling. -/
def lowers (limit : JobGrades) (jobs : ExtTreeMap String Grade) : Bool :=
  jobs.toList.any fun entry =>
    match limit.coarseLimit entry.1 with
    | none => true
    | some top => top < entry.2

/-- Ceilings under one limit after another, and whether any of them was dropped or lowered. -/
def loweredByAll (limits : List JobGrades) (jobs : ExtTreeMap String Grade) :
    ExtTreeMap String Grade × Bool :=
  limits.foldl (fun state limit => (limit.lowered state.1, state.2 || limit.lowers state.1))
    (jobs, false)

/-! ## Fine-grained lists -/

/-- The grades up to a ceiling, all of them where there is no ceiling. -/
def upTo (top : Option Grade) (grades : List Grade) : List Grade :=
  match top with
  | none => grades
  | some top => grades.filter (· ≤ top)

/-- What the limits leave of the grades of a job, if the job is kept. -/
def admitted (valid most : Option JobGrades) (job : String) (grades : List Grade) :
    Option (List Grade) :=
  if grades.isEmpty || most.any (·.ceiling job |>.isNone) then none
  else
    let kept := upTo (valid.bind (·.ceiling job)) (upTo (most.bind (·.ceiling job)) grades)
    if kept.isEmpty then none else some kept

/-- Whether the limits drop a job or any of its grades. -/
def drops (valid most : Option JobGrades) (job : String) (grades : List Grade) : Bool :=
  match admitted valid most job grades with
  | none => true
  | some kept => kept.length != grades.length

/-! ## Both -/

/-- The list kept to its limits. -/
def check (valid most : Option JobGrades) (list : JobGrades) : Checked JobGrades :=
  let valid := validLimit valid
  if list.fineGrained then
    { value := { fineGrained := true, grades := list.grades.filterMap (admitted valid most) }
      ok := true
      changed := list.grades.toList.any (fun entry => drops valid most entry.1 entry.2)
        || !list.jobs.isEmpty }
  else
    let result := loweredByAll (most.toList ++ valid.toList) list.jobs
    { value := { fineGrained := false, jobs := result.1 }
      ok := true
      changed := result.2 || !list.grades.isEmpty }

end JobGrades

end GradedAccess
