import GradedAccess.Proofs.Attribute.Limited
import Mathlib.Logic.Basic

/-!
# What a check reports

A check of a value against its limits reports two things beside the value it leaves: whether the
value could be kept, and whether anything was dropped or lowered.  Both reports are right.  A check
says that something has changed exactly when what it leaves is another value
(`AttributeValue.unchanged_limited_iff`), and a value that could not be kept is empty afterwards.

That the second report can be trusted is not seen from a single place.  For strings and for the
grades of a job it is a comparison of lengths, which is enough since entries are only ever dropped.
For a coarse list it is put together from one report for each limit.  There the argument goes by
`Below`: a limit reports nothing exactly when the ceilings are below it, and that is also when it
leaves them as they are; and ceilings that come out of all limits as they went in are below all of
them, so that no limit can have lowered what another one has put back.

A check works on the value in its place and may fail, and whatever it has done to the value by then
would stay done.  It fails exactly when the value or one of its limits is of another kind, and all
three kinds are asked for before the value is touched (`AttributeValue.checkInPlace_eq`).
-/

namespace GradedAccess

open Std (ExtTreeMap)

/-! ## Lists of strings -/

namespace StringList

variable {valid most : Option StringList} {list : StringList}

theorem within_sublist (list : StringList) (limit : Option StringList) :
    (list.within limit).strings.Sublist list.strings := by
  cases limit with
  | none => exact List.Sublist.refl _
  | some limit => exact List.filter_sublist

/-- A list that exceeds a limit has entries. -/
theorem ne_nil_of_exceeds {limit : Option StringList} (h : list.exceeds limit = true) :
    list.strings ≠ [] := by
  intro hnil
  obtain ⟨limit, -, hlt⟩ := (Option.any_eq_true ..).mp h
  rw [hnil] at hlt
  simp at hlt

/-- A check leaves a list of strings as it is exactly when it reports no change. -/
theorem unchanged_check_iff (valid most : Option StringList) (list : StringList) :
    (list.check valid most).changed = false ↔ (list.check valid most).value = list := by
  by_cases hlong : (list.exceeds most || list.exceeds (validLimit valid)) = true
  · have hcheck : list.check valid most = ⟨⟨[]⟩, false, true⟩ := by
      simp only [check, hlong, if_true]
    have hentries : list.strings ≠ [] := by
      rcases Bool.or_eq_true _ _ ▸ hlong with hmost | hvalid
      · exact ne_nil_of_exceeds hmost
      · exact ne_nil_of_exceeds hvalid
    rw [hcheck]
    simp only [Bool.true_eq_false, false_iff]
    exact fun heq => hentries (congrArg strings heq).symm
  · have hsub : ((list.within most).within (validLimit valid)).strings.Sublist list.strings :=
      (within_sublist _ _).trans (within_sublist _ _)
    simp only [check, hlong, if_false, Bool.false_eq_true, bne_eq_false_iff_eq]
    constructor
    · intro hlength
      have hstrings := hsub.eq_of_length hlength
      generalize (list.within most).within (validLimit valid) = kept at hstrings ⊢
      cases kept
      cases list
      exact congrArg StringList.mk hstrings
    · intro heq
      rw [heq]

/-- A list of strings that cannot be kept is empty afterwards. -/
theorem isEmpty_of_not_ok (h : (list.check valid most).ok = false) :
    (list.check valid most).value.isEmpty = true := by
  rw [check] at h ⊢
  dsimp only at h ⊢
  split at h
  · next hlong =>
    rw [if_pos hlong]
    rfl
  · cases h

end StringList

namespace JobGrades

variable {limit list : JobGrades} {limits : List JobGrades} {jobs : ExtTreeMap String Grade}

/-! ## Coarse lists of grades -/

/-- A limit reports nothing exactly when the ceilings are below it. -/
theorem lowers_eq_false_iff : limit.lowers jobs = false ↔ limit.Below jobs := by
  refine ⟨fun h job grade hgrade => ?_, Below.lowers_eq_false⟩
  rw [lowers, List.any_eq_false] at h
  have hentry := h (job, grade) (ExtTreeMap.mem_toList_iff_getElem?_eq_some.mpr hgrade)
  dsimp only at hentry
  cases htop : limit.coarseLimit job with
  | none =>
    rw [htop] at hentry
    exact absurd rfl hentry
  | some top =>
    rw [htop, decide_eq_true_eq] at hentry
    exact ⟨top, rfl, Std.not_lt.mp hentry⟩

/-- What has been reported stays reported. -/
theorem foldl_lowered_reported (limits : List JobGrades) (jobs : ExtTreeMap String Grade) :
    (limits.foldl (fun state limit =>
      (limit.lowered state.1, state.2 || limit.lowers state.1)) (jobs, true)).2 = true := by
  induction limits generalizing jobs with
  | nil => rfl
  | cons limit limits ih => exact ih (limit.lowered jobs)

/-- Limits that report nothing together have each found the ceilings below them. -/
theorem below_of_loweredByAll (h : (loweredByAll limits jobs).2 = false) :
    ∀ limit ∈ limits, limit.Below jobs := by
  rw [loweredByAll] at h
  induction limits with
  | nil => exact fun _ hmem => absurd hmem List.not_mem_nil
  | cons limit limits ih =>
    rw [List.foldl_cons, Bool.false_or] at h
    cases hlowers : limit.lowers jobs with
    | true => rw [hlowers, foldl_lowered_reported] at h; cases h
    | false =>
      have hbelow := lowers_eq_false_iff.mp hlowers
      rw [hlowers, hbelow.lowered_eq] at h
      rw [List.forall_mem_cons]
      exact ⟨hbelow, ih h⟩

/-- Limits leave the ceilings as they are exactly when they report nothing. -/
theorem unchanged_loweredByAll_iff (limits : List JobGrades) (jobs : ExtTreeMap String Grade) :
    (loweredByAll limits jobs).2 = false ↔ (loweredByAll limits jobs).1 = jobs := by
  constructor
  · intro h
    rw [loweredByAll_of_below (below_of_loweredByAll h)]
  · intro h
    have hbelow := below_loweredByAll limits jobs
    rw [h] at hbelow
    rw [loweredByAll_of_below hbelow]

/-! ## Fine-grained lists of grades -/

variable {valid most : Option JobGrades} {job : String} {grades kept : List Grade}

theorem upTo_sublist (top : Option Grade) (grades : List Grade) :
    (upTo top grades).Sublist grades := by
  cases top with
  | none => exact List.Sublist.refl _
  | some top => exact List.filter_sublist

/-- The grades of a job that are admitted are some of its grades, in their order. -/
theorem sublist_of_admitted (h : admitted valid most job grades = some kept) :
    kept.Sublist grades := by
  rw [admitted, Option.ite_none_left_eq_some, Option.ite_none_left_eq_some,
    Option.some.injEq] at h
  obtain ⟨-, -, rfl⟩ := h
  exact (upTo_sublist _ _).trans (upTo_sublist _ _)

/-- Nothing is dropped from a job exactly when all of its grades are admitted. -/
theorem drops_eq_false_iff :
    drops valid most job grades = false ↔ admitted valid most job grades = some grades := by
  rw [drops]
  cases hkept : admitted valid most job grades with
  | none => simp only [Bool.true_eq_false, reduceCtorEq]
  | some kept =>
    rw [bne_eq_false_iff_eq, Option.some.injEq]
    exact ⟨(sublist_of_admitted hkept).eq_of_length, congrArg List.length⟩

/-- The limits leave the grades of all jobs as they are exactly when they drop none. -/
theorem unchanged_admitted_iff (valid most : Option JobGrades)
    (grades : ExtTreeMap String (List Grade)) :
    (grades.toList.any fun entry => drops valid most entry.1 entry.2) = false ↔
      grades.filterMap (admitted valid most) = grades := by
  simp only [List.any_eq_false, Bool.not_eq_true, drops_eq_false_iff]
  constructor
  · intro h
    ext job kept
    rw [ExtTreeMap.getElem?_filterMap']
    cases hgrades : grades[job]? with
    | none => rfl
    | some list =>
      rw [Option.bind_some,
        h (job, list) (ExtTreeMap.mem_toList_iff_getElem?_eq_some.mpr hgrades)]
  · intro h entry hmem
    have hgrades := ExtTreeMap.mem_toList_iff_getElem?_eq_some.mp hmem
    have hkept := hgrades
    rw [← h, ExtTreeMap.getElem?_filterMap', hgrades, Option.bind_some] at hkept
    exact hkept

/-! ## Lists of grades -/

/-- Whether the map that a list does not select is empty. -/
def SelectedOnly (list : JobGrades) : Prop :=
  if list.fineGrained then list.jobs = ∅ else list.grades = ∅

instance (list : JobGrades) : Decidable list.SelectedOnly :=
  inferInstanceAs (Decidable (if list.fineGrained = true then list.jobs = ∅ else list.grades = ∅))

@[simp] theorem fineGrained_check (valid most : Option JobGrades) (list : JobGrades) :
    (list.check valid most).value.fineGrained = list.fineGrained := by
  cases hfine : list.fineGrained <;> simp [check, hfine]

/-- A check clears the map that a list does not select. -/
theorem selectedOnly_check (valid most : Option JobGrades) (list : JobGrades) :
    (list.check valid most).value.SelectedOnly := by
  cases hfine : list.fineGrained <;> simp [SelectedOnly, check, hfine]

/-- A list of grades can always be kept. -/
theorem ok_check (valid most : Option JobGrades) (list : JobGrades) :
    (list.check valid most).ok = true := by
  cases hfine : list.fineGrained <;> simp [check, hfine]

/-- A check leaves a list of grades as it is exactly when it reports no change. -/
theorem unchanged_check_iff (valid most : Option JobGrades) (list : JobGrades) :
    (list.check valid most).changed = false ↔ (list.check valid most).value = list := by
  obtain ⟨fineGrained, jobs, grades⟩ := list
  cases fineGrained with
  | true =>
    simp only [check, if_true, Bool.or_eq_false_iff, unchanged_admitted_iff, Bool.not_eq_false',
      ExtTreeMap.isEmpty_iff, mk.injEq, true_and]
    exact ⟨fun h => ⟨h.2.symm, h.1⟩, fun h => ⟨h.2, h.1.symm⟩⟩
  | false =>
    simp only [check, if_false, Bool.false_eq_true, Bool.or_eq_false_iff,
      unchanged_loweredByAll_iff, Bool.not_eq_false', ExtTreeMap.isEmpty_iff, mk.injEq, true_and]
    exact ⟨fun h => ⟨h.1, h.2.symm⟩, fun h => ⟨h.1, h.2.symm⟩⟩

end JobGrades

/-! ## Values -/

namespace AttributeValue

variable {kind : AttributeKind} {valid most : Option AttributeValue} {value : AttributeValue}

/-- A value is left as it is exactly when no change is reported. -/
theorem unchanged_limited_iff (valid most : Option AttributeValue) (value : AttributeValue) :
    (value.limited valid most).changed = false ↔ (value.limited valid most).value = value := by
  cases value with
  | strings list =>
    simp only [limited, Checked.map, StringList.unchanged_check_iff, strings.injEq]
  | jobs list => simp only [limited, Checked.map, StringList.unchanged_check_iff, jobs.injEq]
  | grades list => simp only [limited, Checked.map, JobGrades.unchanged_check_iff, grades.injEq]

/-- A value that cannot be kept is empty afterwards. -/
theorem isEmpty_of_not_ok (h : (value.limited valid most).ok = false) :
    (value.limited valid most).value.isEmpty = true := by
  cases value with
  | strings list | jobs list => exact StringList.isEmpty_of_not_ok h
  | grades list =>
    rw [limited, Checked.map, JobGrades.ok_check] at h
    cases h

/-- A check fails exactly when the value or one of its limits is of another kind. -/
theorem checkInPlace_fails_iff :
    (∃ fault left, checkInPlace kind valid most value = (.error fault, left)) ↔
      value.kind ≠ kind ∨ (∃ limit, valid = some limit ∧ limit.kind ≠ kind) ∨
        ∃ limit, most = some limit ∧ limit.kind ≠ kind := by
  have hfails : (∃ fault left, checkInPlace kind valid most value = (.error fault, left)) ↔
      ¬value.ensureKinds kind valid most = .ok () := by
    rw [checkInPlace_eq]
    cases value.ensureKinds kind valid most with
    | error fault => exact ⟨fun _ => nofun, fun _ => ⟨fault, value, rfl⟩⟩
    | ok _ =>
      simp only [clamp_eq]
      exact ⟨nofun, fun hnot => (hnot trivial).elim⟩
  rw [hfails, ensureKinds_eq_ok_iff]
  simp only [not_and_or, not_forall, exists_prop, ne_eq]

/-- A check that fails has done nothing to the value. -/
theorem left_of_checkInPlace_error {fault : Fault} {left : AttributeValue}
    (h : checkInPlace kind valid most value = (.error fault, left)) : left = value := by
  rw [checkInPlace_eq] at h
  cases hkinds : value.ensureKinds kind valid most with
  | error fault' =>
    rw [hkinds] at h
    exact (Prod.ext_iff.mp h).2.symm
  | ok _ =>
    rw [hkinds] at h
    exact nomatch (Prod.ext_iff.mp h).1

/-- What a check of a value against its limits may report and leave. -/
structure Honest (kind : AttributeKind) (valid most : Option AttributeValue)
    (value : AttributeValue) (outcome : CheckOutcome) (left : AttributeValue) : Prop where
  /-- A change is reported exactly when there is one. -/
  changed_iff : outcome.changed = true ↔ left ≠ value
  /-- A value that could not be kept is empty. -/
  empty_of_not_ok : outcome.ok = false → left.isEmpty = true
  kind_eq : left.kind = value.kind
  /-- A list of grades selects the map it has selected before, and the other one is empty. -/
  selected : ∀ list : JobGrades, value = grades list → ∃ list' : JobGrades,
    left = grades list' ∧ list'.fineGrained = list.fineGrained ∧ list'.SelectedOnly
  /-- A second check against the same limits leaves the value as it is. -/
  again : checkInPlace kind valid most left = (.ok ⟨true, false⟩, left)

theorem honest_of_checkInPlace {outcome : CheckOutcome} {left : AttributeValue}
    (h : checkInPlace kind valid most value = (.ok outcome, left)) :
    Honest kind valid most value outcome left := by
  have hcheck := checkInPlace_eq_ok_iff.mp h
  have hagain : checkInPlace kind valid most left = (.ok ⟨true, false⟩, left) :=
    checkInPlace_eq_ok_iff.mpr (check_of_check hcheck).2
  obtain ⟨-, -, -, hleft⟩ := check_eq_ok_iff.mp hcheck
  have hvalue : left = (limited valid most value).value := congrArg Checked.value hleft
  have hok : outcome.ok = (limited valid most value).ok := congrArg Checked.ok hleft
  have hchanged : outcome.changed = (limited valid most value).changed :=
    congrArg Checked.changed hleft
  subst hvalue
  refine ⟨?_, fun hnot => isEmpty_of_not_ok (hok ▸ hnot), kind_limited valid most value, ?_, hagain⟩
  · rw [hchanged, ne_eq, ← unchanged_limited_iff, Bool.not_eq_false]
  · rintro list rfl
    exact ⟨_, rfl, JobGrades.fineGrained_check _ _ list, JobGrades.selectedOnly_check _ _ list⟩

/-- **A check is honest, and it is made once or not at all.**  It fails exactly when the value or a
limit is of another kind, and then it leaves the value as it was.  Otherwise what it leaves is what
it reports, and another check changes nothing. -/
theorem check_reports (kind : AttributeKind) (valid most : Option AttributeValue)
    (value : AttributeValue) :
    ((∃ fault left, checkInPlace kind valid most value = (.error fault, left)) ↔
      value.kind ≠ kind ∨ (∃ limit, valid = some limit ∧ limit.kind ≠ kind) ∨
        ∃ limit, most = some limit ∧ limit.kind ≠ kind) ∧
    (∀ fault left, checkInPlace kind valid most value = (.error fault, left) → left = value) ∧
    ∀ outcome left, checkInPlace kind valid most value = (.ok outcome, left) →
      Honest kind valid most value outcome left :=
  ⟨checkInPlace_fails_iff, fun _ _ => left_of_checkInPlace_error,
    fun _ _ => honest_of_checkInPlace⟩

/-- A coarse list under a fine-grained limit: a ceiling is lowered, a job the limit does not know is
dropped, and so is what was left in the other map.  With a second limit of another kind the check
fails, and all of it is still there. -/
theorem check_reports_lowered :
    let value := grades { jobs := .ofList [("police", (9 : Grade)), ("doj", 1)],
                          grades := .ofList [("police", [(3 : Grade)])] }
    let limit := grades { fineGrained := true, grades := .ofList [("police", [(2 : Grade), 5, 4])] }
    let left := grades { jobs := .ofList [("police", (5 : Grade))] }
    (checkInPlace .jobGradeList none (some limit) value = (.ok ⟨true, true⟩, left) ∧
      Honest .jobGradeList none (some limit) value ⟨true, true⟩ left) ∧
    ∃ kept, checkInPlace .jobGradeList (some limit) (some (jobs ⟨["police"]⟩)) value =
      (.error (.kindMismatch .jobList .jobGradeList), kept) ∧ kept = value := by
  intro value limit left
  have hleft : ⟨left, true, true⟩ = value.limited none (some limit) := by decide +kernel
  have hlimit : ∀ v, some limit = some v → v.kind = .jobGradeList := by
    rintro _ ⟨⟩
    rfl
  have hpasses : checkInPlace .jobGradeList none (some limit) value = (.ok ⟨true, true⟩, left) :=
    checkInPlace_eq_ok_iff.mpr (check_eq_ok_iff.mpr ⟨rfl, nofun, hlimit, hleft⟩)
  have hfails : (checkInPlace .jobGradeList (some limit) (some (jobs ⟨["police"]⟩)) value).1 =
      .error (.kindMismatch .jobList .jobGradeList) := rfl
  exact ⟨⟨hpasses, (check_reports .jobGradeList none (some limit) value).2.2 _ _ hpasses⟩, _,
    Prod.ext hfails rfl, (check_reports .jobGradeList (some limit) (some (jobs ⟨["police"]⟩))
      value).2.1 _ _ (Prod.ext hfails rfl)⟩

end AttributeValue

end GradedAccess
