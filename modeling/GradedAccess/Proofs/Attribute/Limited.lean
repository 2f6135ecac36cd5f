import GradedAccess.Proofs.Attribute.Value

/-!
# A value that has been kept to its limits

Keeping a value to its limits once is enough: of what a check leaves, a second check against the
same limits drops nothing and lowers nothing (`AttributeValue.limited_limited`).

The reason is not the same for the three shapes of a value.  A list of strings is emptied when it
is too long, and is shorter afterwards than any limit; else its entries are filtered, and a filter
lets through what it has let through before.  In a coarse list every ceiling ends up below those of
all limits (`JobGrades.Below`), since a limit only lowers what the limits before it have left.  In a
fine-grained list it is enough to look at the grades of one job at a time.
-/

namespace GradedAccess

open Std (ExtTreeMap)

/-! ## Lists of strings -/

namespace StringList

variable {list list' : StringList} {limit : Option StringList}

/-- A list does not get longer when it is kept to a limit. -/
theorem length_within_le (list : StringList) (limit : Option StringList) :
    (list.within limit).strings.length ≤ list.strings.length := by
  cases limit with
  | none => exact Nat.le_refl _
  | some limit => exact List.length_filter_le _ _

/-- A list that is not longer than one that does not exceed a limit does not exceed it either. -/
theorem exceeds_eq_false_of_length_le (hle : list'.strings.length ≤ list.strings.length)
    (h : list.exceeds limit = false) : list'.exceeds limit = false := by
  cases limit with
  | none => rfl
  | some limit =>
    simp only [exceeds, Option.any_some, decide_eq_false_iff_not] at h ⊢
    omega

/-- The order of two limits does not matter. -/
theorem within_comm (list : StringList) (limit limit' : Option StringList) :
    (list.within limit).within limit' = (list.within limit').within limit := by
  cases limit with
  | none => rfl
  | some limit =>
    cases limit' with
    | none => rfl
    | some limit' => simp only [within, List.filter_filter, Bool.and_comm]

theorem within_within (list : StringList) (limit : Option StringList) :
    (list.within limit).within limit = list.within limit := by
  cases limit with
  | none => rfl
  | some limit => simp only [within, List.filter_filter, Bool.and_self]

/-- A list that keeps to its limits passes a check as it is. -/
theorem check_eq_self {valid most : Option StringList} (hmost : list.exceeds most = false)
    (hvalid : list.exceeds (validLimit valid) = false) (hkept : list.within most = list)
    (hkept' : list.within (validLimit valid) = list) :
    list.check valid most = ⟨list, true, false⟩ := by
  simp [check, hmost, hvalid, hkept, hkept']

/-- A second check finds nothing to drop. -/
theorem check_check (valid most : Option StringList) (list : StringList) :
    (list.check valid most).value.check valid most =
      ⟨(list.check valid most).value, true, false⟩ := by
  by_cases hlong : (list.exceeds most || list.exceeds (validLimit valid)) = true
  · have hvalue : (list.check valid most).value = ⟨[]⟩ := by simp only [check, hlong, if_true]
    rw [hvalue]
    refine check_eq_self ?_ ?_ ?_ ?_
    · cases most <;> simp [exceeds]
    · cases validLimit valid <;> simp [exceeds]
    · cases most <;> rfl
    · cases validLimit valid <;> rfl
  · have hvalue : (list.check valid most).value =
        (list.within most).within (validLimit valid) := by
      simp only [check, hlong, if_false, Bool.false_eq_true]
    rw [Bool.not_eq_true, Bool.or_eq_false_iff] at hlong
    have hle : ((list.within most).within (validLimit valid)).strings.length ≤
        list.strings.length :=
      Nat.le_trans (length_within_le _ _) (length_within_le _ _)
    rw [hvalue]
    refine check_eq_self (exceeds_eq_false_of_length_le hle hlong.1)
      (exceeds_eq_false_of_length_le hle hlong.2) ?_ (within_within _ _)
    rw [within_comm _ _ most, within_within]

end StringList

/-! ## Coarse lists of grades -/

namespace JobGrades

variable {limit : JobGrades} {limits : List JobGrades} {jobs : ExtTreeMap String Grade}

/-- Whether a limit has a ceiling for every job, and none that is lower. -/
def Below (limit : JobGrades) (jobs : ExtTreeMap String Grade) : Prop :=
  ∀ ⦃job : String⦄ ⦃grade : Grade⦄, jobs[job]? = some grade →
    ∃ top, limit.coarseLimit job = some top ∧ grade ≤ top

/-- A ceiling that is left under a limit is not above the one that was there, nor above the
limit's. -/
theorem of_lowered {job : String} {grade : Grade}
    (h : (limit.lowered jobs)[job]? = some grade) :
    ∃ earlier top, jobs[job]? = some earlier ∧ limit.coarseLimit job = some top ∧
      grade ≤ earlier ∧ grade ≤ top := by
  rw [lowered, ExtTreeMap.getElem?_filterMap', Option.bind_eq_some_iff] at h
  obtain ⟨earlier, hearlier, h⟩ := h
  obtain ⟨top, htop, rfl⟩ := Option.map_eq_some_iff.mp h
  refine ⟨earlier, top, hearlier, htop, ?_⟩
  split
  · next hlt => exact ⟨Std.le_of_lt hlt, Std.le_refl _⟩
  · next hle => exact ⟨Std.le_refl _, Std.not_lt.mp hle⟩

theorem below_lowered (limit : JobGrades) (jobs : ExtTreeMap String Grade) :
    limit.Below (limit.lowered jobs) := by
  intro job grade hgrade
  obtain ⟨-, top, -, htop, -, hle⟩ := of_lowered hgrade
  exact ⟨top, htop, hle⟩

/-- What is below one limit stays below it under another. -/
theorem Below.lowered (h : limit.Below jobs) (other : JobGrades) :
    limit.Below (other.lowered jobs) := by
  intro job grade hgrade
  obtain ⟨earlier, -, hearlier, -, hle, -⟩ := of_lowered hgrade
  obtain ⟨top, htop, hle'⟩ := h hearlier
  exact ⟨top, htop, Std.le_trans hle hle'⟩

/-- A limit leaves what is below it as it is. -/
theorem Below.lowered_eq (h : limit.Below jobs) : limit.lowered jobs = jobs := by
  ext job grade
  rw [JobGrades.lowered, ExtTreeMap.getElem?_filterMap']
  cases hgrade : jobs[job]? with
  | none => rfl
  | some grade =>
    obtain ⟨top, htop, hle⟩ := h hgrade
    rw [Option.bind_some, htop, Option.map_some, if_neg (Std.not_lt.mpr hle)]

theorem Below.lowers_eq_false (h : limit.Below jobs) : limit.lowers jobs = false := by
  rw [lowers, List.any_eq_false]
  intro entry hmem
  rw [ExtTreeMap.mem_toList_iff_getElem?_eq_some] at hmem
  obtain ⟨top, htop, hle⟩ := h hmem
  rw [htop, decide_eq_true_eq]
  exact Std.not_lt.mpr hle

/-- Limits leave what is below all of them as it is. -/
theorem loweredByAll_of_below (h : ∀ limit ∈ limits, limit.Below jobs) :
    loweredByAll limits jobs = (jobs, false) := by
  rw [loweredByAll]
  induction limits with
  | nil => rfl
  | cons limit limits ih =>
    rw [List.forall_mem_cons] at h
    rw [List.foldl_cons, h.1.lowered_eq, h.1.lowers_eq_false, Bool.or_false]
    exact ih h.2

/-- What some limits leave is below all of them. -/
theorem below_loweredByAll (limits : List JobGrades) (jobs : ExtTreeMap String Grade) :
    ∀ limit ∈ limits, limit.Below (loweredByAll limits jobs).1 := by
  rw [loweredByAll]
  generalize (jobs, false) = state
  -- what is below a limit already stays so under the limits that follow
  have hstays : ∀ (limit : JobGrades) (limits : List JobGrades)
      (state : ExtTreeMap String Grade × Bool), limit.Below state.1 →
      limit.Below (limits.foldl (fun state limit =>
        (limit.lowered state.1, state.2 || limit.lowers state.1)) state).1 := by
    intro limit limits
    induction limits with
    | nil => exact fun _ h => h
    | cons other limits ih => exact fun state h => ih _ (h.lowered other)
  induction limits generalizing state with
  | nil => exact fun _ hmem => absurd hmem List.not_mem_nil
  | cons first limits ih =>
    rw [List.forall_mem_cons]
    exact ⟨hstays first limits _ (below_lowered first state.1), ih _⟩

/-! ## Fine-grained lists of grades -/

variable {valid most : Option JobGrades} {job : String} {grades kept : List Grade}

theorem upTo_upTo (top : Option Grade) (grades : List Grade) :
    upTo top (upTo top grades) = upTo top grades := by
  cases top with
  | none => rfl
  | some top => simp only [upTo, List.filter_filter, Bool.and_self]

theorem upTo_comm (top top' : Option Grade) (grades : List Grade) :
    upTo top (upTo top' grades) = upTo top' (upTo top grades) := by
  cases top with
  | none => rfl
  | some top =>
    cases top' with
    | none => rfl
    | some top' => simp only [upTo, List.filter_filter, Bool.and_comm]

/-- Grades up to all ceilings are admitted as they are. -/
theorem admitted_eq_self (hkept : ¬kept.isEmpty = true)
    (hmost : ¬most.any (·.ceiling job |>.isNone) = true)
    (hsame : upTo (valid.bind (·.ceiling job)) (upTo (most.bind (·.ceiling job)) kept) = kept) :
    admitted valid most job kept = some kept := by
  simp only [admitted, hkept, hmost, hsame, Bool.false_or, if_false, Bool.false_eq_true]

/-- What the limits have left of the grades of a job, they leave again. -/
theorem admitted_of_admitted (h : admitted valid most job grades = some kept) :
    admitted valid most job kept = some kept := by
  rw [admitted, Option.ite_none_left_eq_some] at h
  obtain ⟨hlimits, h⟩ := h
  rw [Option.ite_none_left_eq_some, Option.some.injEq] at h
  obtain ⟨hnonempty, rfl⟩ := h
  rw [Bool.or_eq_true, not_or] at hlimits
  refine admitted_eq_self hnonempty hlimits.2 ?_
  rw [upTo_comm (most.bind (·.ceiling job)), upTo_upTo, upTo_upTo]

theorem filterMap_admitted (valid most : Option JobGrades)
    (grades : ExtTreeMap String (List Grade)) :
    (grades.filterMap (admitted valid most)).filterMap (admitted valid most) =
      grades.filterMap (admitted valid most) := by
  ext job kept
  rw [ExtTreeMap.getElem?_filterMap', ExtTreeMap.getElem?_filterMap']
  cases hgrades : grades[job]? with
  | none => rfl
  | some grades =>
    rw [Option.bind_some]
    cases hkept : admitted valid most job grades with
    | none => rfl
    | some kept => rw [Option.bind_some, admitted_of_admitted hkept]

theorem any_drops_filterMap_admitted (valid most : Option JobGrades)
    (grades : ExtTreeMap String (List Grade)) :
    ((grades.filterMap (admitted valid most)).toList.any fun entry =>
      drops valid most entry.1 entry.2) = false := by
  rw [List.any_eq_false]
  intro entry hmem
  rw [ExtTreeMap.mem_toList_iff_getElem?_eq_some, ExtTreeMap.getElem?_filterMap',
    Option.bind_eq_some_iff] at hmem
  obtain ⟨grades, -, hkept⟩ := hmem
  simp [drops, admitted_of_admitted hkept]

/-- A second check finds nothing to drop or lower. -/
theorem check_check (valid most : Option JobGrades) (list : JobGrades) :
    (list.check valid most).value.check valid most =
      ⟨(list.check valid most).value, true, false⟩ := by
  by_cases hfine : list.fineGrained = true
  · simp only [check, hfine, if_true, filterMap_admitted, any_drops_filterMap_admitted]
    rfl
  · have hbelow := loweredByAll_of_below
      (below_loweredByAll (most.toList ++ (validLimit valid).toList) list.jobs)
    simp only [check, hfine, if_false, Bool.false_eq_true, hbelow]
    rfl

end JobGrades

/-! ## Values -/

namespace AttributeValue

/-- A value that is kept to limits keeps its kind. -/
@[simp] theorem kind_limited (valid most : Option AttributeValue) (value : AttributeValue) :
    (value.limited valid most).value.kind = value.kind := by
  cases value <;> rfl

/-- **Keeping a value to its limits once is enough.** -/
theorem limited_limited (valid most : Option AttributeValue) (value : AttributeValue) :
    (value.limited valid most).value.limited valid most =
      ⟨(value.limited valid most).value, true, false⟩ := by
  cases value with
  | strings list => simp only [limited, Checked.map, StringList.check_check]
  | jobs list => simp only [limited, Checked.map, StringList.check_check]
  | grades list => simp only [limited, Checked.map, JobGrades.check_check]

/-- What a check leaves passes another check as it is. -/
theorem check_of_check {kind : AttributeKind} {valid most : Option AttributeValue}
    {value : AttributeValue} {checked : Checked AttributeValue}
    (h : value.check kind valid most = .ok checked) :
    checked.value.kind = kind ∧
      checked.value.check kind valid most = .ok ⟨checked.value, true, false⟩ := by
  obtain ⟨hkind, hvalid, hmost, rfl⟩ := check_eq_ok_iff.mp h
  have hkept : (value.limited valid most).value.kind = kind := (kind_limited ..).trans hkind
  exact ⟨hkept, check_eq_ok_iff.mpr ⟨hkept, hvalid, hmost, (limited_limited ..).symm⟩⟩

end AttributeValue

end GradedAccess
