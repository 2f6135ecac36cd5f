import GradedAccess.Proofs.Attribute.Limited
import GradedAccess.Proofs.Attribute.Views

/-!
# What tighter limits leave

A value that is kept to a tighter limit admits no more than one that is kept to a looser limit.  For
every shape of a value there is one law that says which entries are admitted after a check, and the
tighter limit is seen to matter only where it refuses an entry.

A limit of strings is tighter if it has no other strings and is not longer: the length counts, since
a list that is longer than its limit is emptied.  A limit of grades is tighter if it has no higher
ceilings, whether it is coarse or fine-grained.
-/

namespace GradedAccess

open Std (ExtTreeMap)

/-! ## Limits that may be absent -/

/-- Whether a limit that may be absent is not looser than another: none is the loosest. -/
def LimitTightens {α : Type} (tightens : α → α → Prop) (new old : Option α) : Prop :=
  ∀ limit ∈ old, ∃ limit' ∈ new, tightens limit' limit

namespace LimitTightens

variable {α β : Type} {tightens : α → α → Prop} {new old : Option α}

theorem refl (hrefl : ∀ limit, tightens limit limit) (limit : Option α) :
    LimitTightens tightens limit limit :=
  fun a ha => ⟨a, ha, hrefl a⟩

/-- What a tighter limit lets through, a looser one does too. -/
theorem all (h : LimitTightens tightens new old) {p : α → Bool}
    (hp : ∀ ⦃limit' limit : α⦄, tightens limit' limit → p limit' = true → p limit = true)
    (hnew : new.all p = true) : old.all p = true := by
  rw [Option.all_eq_true] at hnew ⊢
  intro limit hlimit
  obtain ⟨limit', hlimit', htight⟩ := h limit hlimit
  exact hp htight (hnew limit' hlimit')

/-- A tighter limit has a tighter part. -/
theorem bind (h : LimitTightens tightens new old) {part : α → Option β}
    {tightens' : β → β → Prop}
    (hpart : ∀ ⦃limit' limit : α⦄, tightens limit' limit →
      LimitTightens tightens' (part limit') (part limit)) :
    LimitTightens tightens' (new.bind part) (old.bind part) := by
  intro b hb
  obtain ⟨limit, hlimit, hb⟩ := Option.bind_eq_some_iff.mp hb
  obtain ⟨limit', hlimit', htight⟩ := h limit hlimit
  obtain ⟨b', hb', htight'⟩ := hpart htight b hb
  exact ⟨b', Option.bind_eq_some_iff.mpr ⟨limit', hlimit', hb'⟩, htight'⟩

end LimitTightens

/-! ## Lists of strings -/

namespace StringList

variable {list new old : StringList} {limit valid most most' : Option StringList} {entry : String}

/-- Whether a list admits no string that another one does not. -/
def AdmitsNoMore (list list' : StringList) : Prop :=
  ∀ entry, list.contains entry = true → list'.contains entry = true

/-- Whether a limit is not looser than another: it has no other strings, and no more of them. -/
structure Tightens (new old : StringList) : Prop where
  strings : new.strings ⊆ old.strings
  length : new.strings.length ≤ old.strings.length

/-- A limit that some strings are taken from gets tighter. -/
theorem Tightens.of_sublist (h : new.strings.Sublist old.strings) : new.Tightens old :=
  ⟨h.subset, h.length_le⟩

theorem mem_within_iff :
    entry ∈ (list.within limit).strings ↔
      entry ∈ list.strings ∧ ∀ most ∈ limit, entry ∈ most.strings := by
  cases limit with
  | none => simp [within]
  | some most => simp [within, contains]

/-- A check empties a list or leaves the strings that are in all limits. -/
theorem mem_check_iff :
    entry ∈ (list.check valid most).value.strings ↔
      (list.exceeds most = false ∧ list.exceeds (validLimit valid) = false) ∧
        (entry ∈ list.strings ∧ ∀ limit ∈ most, entry ∈ limit.strings) ∧
          ∀ limit ∈ validLimit valid, entry ∈ limit.strings := by
  by_cases hlong : (list.exceeds most || list.exceeds (validLimit valid)) = true
  · have hnot : ¬(list.exceeds most = false ∧ list.exceeds (validLimit valid) = false) := by
      rwa [← Bool.or_eq_false_iff, Bool.not_eq_false]
    simp only [check, hlong, if_true, List.not_mem_nil, hnot, false_and]
  · rw [Bool.not_eq_true] at hlong
    rw [← Bool.or_eq_false_iff, ← mem_within_iff, ← mem_within_iff]
    simp only [check, hlong, if_false, Bool.false_eq_true, true_and]

/-- A list that is not too long for a limit is not too long for a looser one. -/
theorem exceeds_of_tightens (h : LimitTightens Tightens most' most)
    (hfits : list.exceeds most' = false) : list.exceeds most = false := by
  cases most with
  | none => rfl
  | some old =>
    obtain ⟨new, rfl, htight⟩ := h old rfl
    simp only [exceeds, Option.any_some, decide_eq_false_iff_not, Nat.not_lt] at hfits ⊢
    exact Nat.le_trans hfits htight.length

/-- A tighter limit leaves no more of a list. -/
theorem admitsNoMore_check (list : StringList) (valid : Option StringList)
    (h : LimitTightens Tightens most' most) :
    (list.check valid most').value.AdmitsNoMore (list.check valid most).value := by
  intro entry hentry
  rw [contains, List.contains_iff_mem, mem_check_iff] at hentry ⊢
  obtain ⟨⟨hfits, hvalid⟩, ⟨hmem, hmost⟩, hknown⟩ := hentry
  refine ⟨⟨exceeds_of_tightens h hfits, hvalid⟩, ⟨hmem, fun old hold => ?_⟩, hknown⟩
  obtain ⟨new, hnew, htight⟩ := h old hold
  exact htight.strings (hmost new hnew)

end StringList

/-! ## Lists of grades -/

namespace JobGrades

variable {list limit new old : JobGrades} {limits : List JobGrades}
  {jobs : ExtTreeMap String Grade} {valid most most' : Option JobGrades} {job : String}
  {grade : Grade} {grades : List Grade}

/-- Whether a list admits no grade of a job that another one does not. -/
def AdmitsNoMore (list list' : JobGrades) : Prop :=
  ∀ job grade, list.allows job grade = true → list'.allows job grade = true

/-- Whether a limit is not looser than another: where it has a ceiling, the other has one that is
not lower. -/
def Tightens (new old : JobGrades) : Prop :=
  ∀ job top, new.ceiling job = some top → ∃ top', old.ceiling job = some top' ∧ top ≤ top'

/-- What is below a ceiling is below a looser one. -/
theorem Tightens.any_ceiling (h : new.Tightens old)
    (hbelow : (new.ceiling job).any (grade ≤ ·) = true) :
    (old.ceiling job).any (grade ≤ ·) = true := by
  rw [Option.any_eq_true] at hbelow ⊢
  obtain ⟨top, htop, hle⟩ := hbelow
  obtain ⟨top', htop', hle'⟩ := h job top htop
  exact ⟨top', htop', decide_eq_true (Std.le_trans (of_decide_eq_true hle) hle')⟩

theorem Tightens.any_coarseLimit (h : new.Tightens old)
    (hbelow : (new.coarseLimit job).any (grade ≤ ·) = true) :
    (old.coarseLimit job).any (grade ≤ ·) = true := by
  rw [Option.any_eq_true] at hbelow ⊢
  obtain ⟨top, htop, hle⟩ := hbelow
  rw [coarseLimit, Option.filter_eq_some_iff] at htop
  obtain ⟨top', htop', hle'⟩ := h job top htop.1
  refine ⟨top', ?_, decide_eq_true (Std.le_trans (of_decide_eq_true hle) hle')⟩
  rw [coarseLimit, Option.filter_eq_some_iff]
  exact ⟨htop', decide_eq_true (Std.lt_of_lt_of_le (of_decide_eq_true htop.2) hle')⟩

/-! ### Which grades are left -/

/-- A limit leaves the grades of a coarse list that are below its own ceiling as well. -/
theorem any_lowered (limit : JobGrades) (jobs : ExtTreeMap String Grade) (job : String)
    (grade : Grade) :
    (limit.lowered jobs)[job]?.any (grade ≤ ·) =
      (jobs[job]?.any (grade ≤ ·) && (limit.coarseLimit job).any (grade ≤ ·)) := by
  rw [lowered, ExtTreeMap.getElem?_filterMap']
  cases jobs[job]? with
  | none => rfl
  | some earlier =>
    rw [Option.bind_some]
    cases limit.coarseLimit job with
    | none => simp
    | some top =>
      rw [Option.map_some, Option.any_some, Option.any_some, Option.any_some, Bool.eq_iff_iff,
        Bool.and_eq_true, decide_eq_true_eq, decide_eq_true_eq, decide_eq_true_eq]
      split
      · next hlt => exact ⟨fun h => ⟨Std.le_trans h (Std.le_of_lt hlt), h⟩, And.right⟩
      · next hle => exact ⟨fun h => ⟨h, Std.le_trans h (Std.not_lt.mp hle)⟩, And.left⟩

/-- Several limits leave the grades that are below the ceilings of all of them. -/
theorem any_loweredByAll (limits : List JobGrades) (jobs : ExtTreeMap String Grade) (job : String)
    (grade : Grade) :
    (loweredByAll limits jobs).1[job]?.any (grade ≤ ·) =
      (jobs[job]?.any (grade ≤ ·) &&
        limits.all fun limit => (limit.coarseLimit job).any (grade ≤ ·)) := by
  rw [loweredByAll]
  suffices hfold : ∀ (state : ExtTreeMap String Grade × Bool),
      (limits.foldl (fun state limit =>
        (limit.lowered state.1, state.2 || limit.lowers state.1)) state).1[job]?.any (grade ≤ ·) =
        (state.1[job]?.any (grade ≤ ·) &&
          limits.all fun limit => (limit.coarseLimit job).any (grade ≤ ·)) from hfold _
  induction limits with
  | nil => exact fun state => (Bool.and_true _).symm
  | cons limit limits ih =>
    intro state
    rw [List.foldl_cons, ih, any_lowered, List.all_cons, Bool.and_assoc]

theorem contains_upTo (top : Option Grade) (grades : List Grade) (grade : Grade) :
    (upTo top grades).contains grade = (grades.contains grade && top.all (grade ≤ ·)) := by
  cases top with
  | none => exact (Bool.and_true _).symm
  | some top => rw [Bool.eq_iff_iff]; simp [upTo]

/-- The limits leave the grades of a fine-grained list that are not above a ceiling.  Where `most`
has no ceiling it leaves none. -/
theorem any_admitted (valid most : Option JobGrades) (job : String) (grades : List Grade)
    (grade : Grade) :
    (admitted valid most job grades).any (·.contains grade) =
      (grades.contains grade && most.all (fun limit => (limit.ceiling job).any (grade ≤ ·)) &&
        valid.all fun limit => (limit.ceiling job).all (grade ≤ ·)) := by
  have hkept : ∀ kept : List Grade,
      (if kept.isEmpty then none else some kept).any (·.contains grade) = kept.contains grade := by
    intro kept
    cases kept <;> rfl
  have hvalid : (valid.bind (·.ceiling job)).all (grade ≤ ·) =
      valid.all fun limit => (limit.ceiling job).all (grade ≤ ·) := by
    cases valid <;> rfl
  rw [admitted]
  split
  · next hnone =>
    rw [Bool.or_eq_true] at hnone
    rcases hnone with hempty | hmost
    · rw [List.isEmpty_iff.mp hempty]
      rfl
    · cases most with
      | none => cases hmost
      | some most =>
        rw [Option.any_some, Option.isNone_iff_eq_none] at hmost
        simp [hmost]
  · next hsome =>
    rw [Bool.or_eq_true, not_or] at hsome
    have hmost : (most.bind (·.ceiling job)).all (grade ≤ ·) =
        most.all fun limit => (limit.ceiling job).any (grade ≤ ·) := by
      cases most with
      | none => rfl
      | some most =>
        rw [Option.bind_some, Option.all_some]
        cases hceiling : most.ceiling job with
        | none => simp [hceiling] at hsome
        | some top => rfl
    rw [hkept, contains_upTo, contains_upTo, hvalid, hmost]

/-- What is left of a fine-grained list. -/
theorem allows_check_of_fine (hfine : list.fineGrained = true) (valid most : Option JobGrades)
    (job : String) (grade : Grade) :
    (list.check valid most).value.allows job grade =
      (list.allows job grade && most.all (fun limit => (limit.ceiling job).any (grade ≤ ·)) &&
        (validLimit valid).all fun limit => (limit.ceiling job).all (grade ≤ ·)) := by
  simp only [check, allows, hfine, if_true, ExtTreeMap.getElem?_filterMap']
  cases list.grades[job]? with
  | none => rfl
  | some grades => exact any_admitted (validLimit valid) most job grades grade

/-- What is left of a coarse list. -/
theorem allows_check_of_coarse (hcoarse : list.fineGrained = false)
    (valid most : Option JobGrades) (job : String) (grade : Grade) :
    (list.check valid most).value.allows job grade =
      (list.allows job grade && most.all (fun limit => (limit.coarseLimit job).any (grade ≤ ·)) &&
        (validLimit valid).all fun limit => (limit.coarseLimit job).any (grade ≤ ·)) := by
  have htoList : ∀ (limit : Option JobGrades) (p : JobGrades → Bool),
      limit.toList.all p = limit.all p := by
    intro limit p
    cases limit <;> simp
  simp only [check, allows, hcoarse, if_false, Bool.false_eq_true, any_loweredByAll,
    List.all_append, htoList, Bool.and_assoc]

/-- A tighter limit leaves no more of a list. -/
theorem admitsNoMore_check (list : JobGrades) (valid : Option JobGrades)
    (h : LimitTightens Tightens most' most) :
    (list.check valid most').value.AdmitsNoMore (list.check valid most).value := by
  intro job grade hallowed
  cases hfine : list.fineGrained with
  | true =>
    rw [allows_check_of_fine hfine, Bool.and_eq_true, Bool.and_eq_true] at hallowed ⊢
    obtain ⟨⟨hlist, hmost⟩, hvalid⟩ := hallowed
    exact ⟨⟨hlist, h.all (fun _ _ htight => htight.any_ceiling) hmost⟩, hvalid⟩
  | false =>
    rw [allows_check_of_coarse hfine, Bool.and_eq_true, Bool.and_eq_true] at hallowed ⊢
    obtain ⟨⟨hlist, hmost⟩, hvalid⟩ := hallowed
    exact ⟨⟨hlist, h.all (fun _ _ htight => htight.any_coarseLimit) hmost⟩, hvalid⟩

end JobGrades

/-! ## Values -/

namespace AttributeValue

variable {value value' : AttributeValue} {valid most most' : Option AttributeValue}

/-- Whether a value is of the shape of another and admits no string, and no grade of a job, that
the other does not. -/
def AdmitsNoMore : AttributeValue → AttributeValue → Prop
  | strings list, strings list' | jobs list, jobs list' => list.AdmitsNoMore list'
  | grades list, grades list' => list.AdmitsNoMore list'
  | _, _ => False

/-- Whether a limit is of the shape of another and not looser. -/
def Tightens : AttributeValue → AttributeValue → Prop
  | strings new, strings old | jobs new, jobs old => new.Tightens old
  | grades new, grades old => new.Tightens old
  | _, _ => False

theorem AdmitsNoMore.kind_eq (h : value.AdmitsNoMore value') : value.kind = value'.kind := by
  cases value <;> cases value' <;> first | rfl | exact h.elim

/-- Of the entries of a value none is missing in a value that admits as much. -/
theorem AdmitsNoMore.flat_subset (h : value.AdmitsNoMore value') : value.flat ⊆ value'.flat := by
  intro entry hentry
  cases value <;> cases value' <;> try exact h.elim
  case strings.strings | jobs.jobs =>
    exact List.contains_iff_mem.mp (h entry (List.contains_iff_mem.mpr hentry))
  case grades.grades =>
    obtain ⟨grade, hgrade⟩ := JobGrades.mem_codes_iff.mp hentry
    exact JobGrades.mem_codes_iff.mpr ⟨grade, h entry grade hgrade⟩

theorem Tightens.refl (limit : AttributeValue) : limit.Tightens limit := by
  cases limit with
  | strings | jobs => exact ⟨List.Subset.refl _, Nat.le_refl _⟩
  | grades => exact fun _ top htop => ⟨top, htop, Std.le_refl top⟩

theorem Tightens.stringList {new old : AttributeValue} (h : new.Tightens old) :
    LimitTightens StringList.Tightens new.stringList? old.stringList? := by
  cases new <;> cases old <;> try exact h.elim
  case strings.strings new old | jobs.jobs new old =>
    rintro _ ⟨⟩
    exact ⟨new, rfl, h⟩
  case grades.grades => exact nofun

theorem Tightens.jobGrades {new old : AttributeValue} (h : new.Tightens old) :
    LimitTightens JobGrades.Tightens new.jobGrades? old.jobGrades? := by
  cases new <;> cases old <;> try exact h.elim
  case strings.strings | jobs.jobs => exact nofun
  case grades.grades new old =>
    rintro _ ⟨⟩
    exact ⟨new, rfl, h⟩

/-- **A tighter limit leaves no more of a value.** -/
theorem admitsNoMore_limited (value : AttributeValue) (valid : Option AttributeValue)
    (h : LimitTightens Tightens most' most) :
    (value.limited valid most').value.AdmitsNoMore (value.limited valid most).value := by
  cases value with
  | strings list | jobs list =>
    exact list.admitsNoMore_check _ (h.bind fun _ _ htight => htight.stringList)
  | grades list => exact list.admitsNoMore_check _ (h.bind fun _ _ htight => htight.jobGrades)

end AttributeValue

end GradedAccess
