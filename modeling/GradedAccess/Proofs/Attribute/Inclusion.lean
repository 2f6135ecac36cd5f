import GradedAccess.Proofs.Attribute.Tightening
import Mathlib.Data.List.Perm.Subperm

/-!
# What limits leave of a list of strings

Two limits may count for a list of strings: the most a job may have, if it is given at all, and the
valid strings, if there are any.  So an empty maximum forbids everything, and empty valid strings
say nothing (`limits`).

A list that is longer than one of these limits is emptied.  Any other list keeps the strings that
all limits contain, in their order and as often as it had them.  Comparing lengths first stands for
asking whether the list is part of the limit at all, and it never empties a list that is: a list
without repetitions whose strings are all in a limit is not longer than the limit, even if the limit
repeats some of its own.  With repetitions this fails, and a list may be emptied although a limit
contains all of its strings.
-/

namespace GradedAccess

namespace StringList

variable {list : StringList} {valid most : Option StringList}

/-! ## The limits that count -/

/-- The limits that count for a list: a maximum that is given, and valid strings that are not
empty. -/
def limits (valid most : Option StringList) : List StringList :=
  most.toList ++ valid.toList.filter (!·.isEmpty)

theorem limits_eq (valid most : Option StringList) :
    limits valid most = most.toList ++ (validLimit valid).toList := by
  cases valid with
  | none => rfl
  | some valid =>
    cases hempty : valid.isEmpty <;>
      simp [limits, validLimit, Option.filter_some, hempty]

/-- A list exceeds its maximum or its valid strings exactly when it is longer than a limit that
counts. -/
theorem exceeds_iff_longer :
    (list.exceeds most || list.exceeds (validLimit valid)) = true ↔
      ∃ limit ∈ limits valid most, limit.strings.length < list.strings.length := by
  simp only [limits_eq, List.mem_append, Option.mem_toList, or_and_right, exists_or,
    Bool.or_eq_true, exceeds, Option.any_eq_true, decide_eq_true_eq]

/-- What is within a limit are the strings it contains. -/
theorem strings_within (list : StringList) (limit : Option StringList) :
    (list.within limit).strings =
      list.strings.filter fun entry => limit.toList.all (·.contains entry) := by
  cases limit with
  | none => exact (List.filter_eq_self.mpr fun _ _ => rfl).symm
  | some limit => simp only [within, Option.toList_some, List.all_cons, List.all_nil, Bool.and_true]

/-- What is within both limits are the strings that all limits contain. -/
theorem strings_within_within (list : StringList) (valid most : Option StringList) :
    ((list.within most).within (validLimit valid)).strings =
      list.strings.filter fun entry => (limits valid most).all (·.contains entry) := by
  rw [strings_within, strings_within, List.filter_filter, limits_eq]
  refine List.filter_congr fun entry _ => ?_
  rw [List.all_append, Bool.and_comm]

/-! ## What a check leaves -/

/-- A list that is longer than a limit is emptied. -/
theorem check_of_longer
    (h : ∃ limit ∈ limits valid most, limit.strings.length < list.strings.length) :
    list.check valid most = ⟨⟨[]⟩, false, true⟩ := by
  simp only [check, exceeds_iff_longer.mpr h, if_true]

/-- A list that is not longer than any limit keeps what they contain. -/
theorem check_of_not_longer
    (h : ∀ limit ∈ limits valid most, list.strings.length ≤ limit.strings.length) :
    (list.check valid most).value.strings =
        list.strings.filter (fun entry => (limits valid most).all (·.contains entry)) ∧
      (list.check valid most).ok = true := by
  have hfits : ¬(list.exceeds most || list.exceeds (validLimit valid)) = true := by
    rw [exceeds_iff_longer]
    rintro ⟨limit, hlimit, hlonger⟩
    exact absurd (h limit hlimit) (Nat.not_le.mpr hlonger)
  simp only [check, hfits, if_false, Bool.false_eq_true]
  exact ⟨strings_within_within list valid most, trivial⟩

/-- What is left of a list is in every limit. -/
theorem check_subset (list : StringList) (valid most : Option StringList) :
    ∀ limit ∈ limits valid most, (list.check valid most).value.strings ⊆ limit.strings := by
  intro limit hlimit entry hentry
  by_cases hlonger : ∃ limit ∈ limits valid most, limit.strings.length < list.strings.length
  · rw [check_of_longer hlonger] at hentry
    cases hentry
  · have hfits : ∀ limit ∈ limits valid most, list.strings.length ≤ limit.strings.length :=
      fun limit hlimit => Nat.not_lt.mp fun hlt => hlonger ⟨limit, hlimit, hlt⟩
    rw [(check_of_not_longer hfits).1, List.mem_filter, List.all_eq_true] at hentry
    exact List.contains_iff_mem.mp (hentry.2 limit hlimit)

/-- A list without repetitions is left as it is exactly when every limit contains all of it. -/
theorem check_eq_self_iff (hnodup : list.strings.Nodup) :
    (list.check valid most).value = list ↔
      ∀ limit ∈ limits valid most, list.strings ⊆ limit.strings := by
  constructor
  · intro hsame limit hlimit
    have hsubset := check_subset list valid most limit hlimit
    rwa [hsame] at hsubset
  · intro hall
    -- as many different strings do not fit into a shorter limit
    have hfits : ∀ limit ∈ limits valid most, list.strings.length ≤ limit.strings.length :=
      fun limit hlimit => hnodup.length_le_of_subset (hall limit hlimit)
    have hkept : (list.check valid most).value.strings = list.strings := by
      rw [(check_of_not_longer hfits).1, List.filter_eq_self]
      intro entry hentry
      rw [List.all_eq_true]
      exact fun limit hlimit => List.contains_iff_mem.mpr (hall limit hlimit hentry)
    generalize (list.check valid most).value = kept at hkept
    cases kept
    cases list
    exact congrArg mk hkept

/-- **A check of strings.**  A list that is longer than a limit is emptied, and every other one
keeps the strings that all limits contain.  Either way what is left is in every limit, and a list
without repetitions is left as it is exactly when it was in every limit before. -/
theorem check_keeps_common (list : StringList) (valid most : Option StringList) :
    ((∃ limit ∈ limits valid most, limit.strings.length < list.strings.length) →
      (list.check valid most).value.strings = [] ∧ (list.check valid most).ok = false) ∧
    ((∀ limit ∈ limits valid most, list.strings.length ≤ limit.strings.length) →
      (list.check valid most).value.strings =
          list.strings.filter (fun entry => (limits valid most).all (·.contains entry)) ∧
        (list.check valid most).ok = true) ∧
    (∀ limit ∈ limits valid most, (list.check valid most).value.strings ⊆ limit.strings) ∧
    (list.strings.Nodup →
      ((list.check valid most).value = list ↔
        ∀ limit ∈ limits valid most, list.strings ⊆ limit.strings)) := by
  refine ⟨fun hlonger => ?_, check_of_not_longer, check_subset list valid most, check_eq_self_iff⟩
  rw [check_of_longer hlonger]
  exact ⟨rfl, rfl⟩

/-- Fields of a record under a maximum of three fields, with no valid ones given.  A repeated field
is kept as often as it was there, a field named four times is too much, and two different fields
that are allowed are left as they are. -/
theorem check_keeps_common_fields :
    let valid : StringList := ⟨[]⟩
    let most : StringList := ⟨["name", "phone", "address"]⟩
    let repeated : StringList := ⟨["phone", "email", "phone"]⟩
    let long : StringList := ⟨["name", "name", "name", "name"]⟩
    let allowed : StringList := ⟨["phone", "name"]⟩
    (repeated.check (some valid) (some most)).value.strings = ["phone", "phone"] ∧
      (long.check (some valid) (some most)).value.strings = [] ∧
      (allowed.check (some valid) (some most)).value = allowed := by
  intro valid most repeated long allowed
  have hlimits : limits (some valid) (some most) = [most] := by decide
  refine ⟨?_, ?_, ?_⟩
  · rw [((check_keeps_common repeated (some valid) (some most)).2.1
      (by rw [hlimits]; decide)).1, hlimits]
    decide
  · exact ((check_keeps_common long (some valid) (some most)).1
      ⟨most, by rw [hlimits]; decide, by decide⟩).1
  · exact ((check_keeps_common allowed (some valid) (some most)).2.2.2 (by decide)).mpr
      (by rw [hlimits]; decide)

end StringList

end GradedAccess
