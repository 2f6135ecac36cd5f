import GradedAccess.PairTable

/-!
# Replacing rows

A reload brings all rows of a scope as they are now: of one role, of one job, or of everything.
What is held for the scope is replaced by them, and a `Tally` says how much was brought and how
much of what was held is gone.  A row that is brought twice counts twice, although only the last
one is held.
-/

namespace GradedAccess

open Std (ExtTreeSet LawfulEqOrd TransOrd)

/-- How many rows a replacement brought, and how many keys it made disappear. -/
structure Tally where
  upserted : Nat := 0
  removed : Nat := 0
  deriving DecidableEq, Repr

namespace Tally

instance : Add Tally where
  add a b := ⟨a.upserted + b.upserted, a.removed + b.removed⟩

instance : Zero Tally where
  zero := {}

@[simp] theorem upserted_add (a b : Tally) : (a + b).upserted = a.upserted + b.upserted := rfl

@[simp] theorem removed_add (a b : Tally) : (a + b).removed = a.removed + b.removed := rfl

@[simp] theorem upserted_zero : (0 : Tally).upserted = 0 := rfl

@[simp] theorem removed_zero : (0 : Tally).removed = 0 := rfl

end Tally

namespace PairTable

variable {α β γ : Type} [Ord α] [Ord β] [TransOrd α] [TransOrd β] [DecidableEq α] [DecidableEq β]

/-- The keys held under a first part that fresh rows do not bring again. -/
def stale (table : PairTable α β γ) (a : α) (fresh : List (β × γ)) : List β :=
  ((table.row a).map (·.1)).filter fun key => !fresh.any (·.1 == key)

/-- The table with the rows under one first part replaced by fresh ones. -/
def replaceRow (table : PairTable α β γ) (a : α) (fresh : List (β × γ)) :
    PairTable α β γ × Tally :=
  (putRow (table.dropRow a) a fresh, ⟨fresh.length, (table.stale a fresh).length⟩)

/-- The fresh rows under one first part, in the order in which they were brought. -/
def freshRow (fresh : List (α × β × γ)) (a : α) : List (β × γ) :=
  fresh.filterMap fun entry => if entry.1 = a then some entry.2 else none

/-- The table with the rows under several first parts replaced: those that are named, and those
that have fresh rows. -/
def replaceRows (table : PairTable α β γ) (named : List α) (fresh : List (α × β × γ)) :
    PairTable α β γ × Tally :=
  (ExtTreeSet.ofList (named ++ fresh.map (·.1))).toList.foldl
    (fun state a =>
      let replaced := replaceRow state.1 a (freshRow fresh a)
      (replaced.1, state.2 + replaced.2))
    (table, 0)

/-! ## What a replacement does to a lookup -/

omit [Ord α] [Ord β] [TransOrd α] [TransOrd β] [DecidableEq β] in
/-- Nothing is brought under a first part that no fresh row has. -/
theorem freshRow_eq_nil {fresh : List (α × β × γ)} {a : α} (h : a ∉ fresh.map (·.1)) :
    freshRow fresh a = [] := by
  rw [freshRow, List.filterMap_eq_nil_iff]
  intro entry hmem
  rw [if_neg]
  rintro rfl
  exact h (List.mem_map_of_mem hmem)

variable [LawfulEqOrd α] [LawfulEqOrd β]

/-- A replaced row holds what was brought last, and the other rows stay. -/
theorem getElem?_replaceRow (table : PairTable α β γ) (a : α) (fresh : List (β × γ)) (a' : α)
    (b : β) :
    (table.replaceRow a fresh).1[(a', b)]? =
      if a' = a then lastFor b fresh else table[(a', b)]? := by
  simp only [replaceRow, getElem?_putRow, getElem?_dropRow]
  by_cases h : a' = a <;> simp [h]

/-- Replacing one row after another replaces each of them once and for all. -/
theorem getElem?_foldl_replaceRow (fresh : List (α × β × γ)) (as : List α)
    (state : PairTable α β γ × Tally) (a : α) (b : β) :
    (as.foldl (fun state a =>
      let replaced := replaceRow state.1 a (freshRow fresh a)
      (replaced.1, state.2 + replaced.2)) state).1[(a, b)]? =
      if a ∈ as then lastFor b (freshRow fresh a) else state.1[(a, b)]? := by
  induction as generalizing state with
  | nil => simp
  | cons first as ih =>
    rw [List.foldl_cons, ih]
    simp only [getElem?_replaceRow, List.mem_cons]
    by_cases ha : a ∈ as
    · simp [ha]
    · by_cases h : a = first <;> simp [ha, h]

/-- Every row that is named or brought holds what was brought last, and the other rows stay. -/
theorem getElem?_replaceRows (table : PairTable α β γ) (named : List α)
    (fresh : List (α × β × γ)) (a : α) (b : β) :
    (table.replaceRows named fresh).1[(a, b)]? =
      if a ∈ named ∨ a ∈ fresh.map (·.1) then lastFor b (freshRow fresh a)
      else table[(a, b)]? := by
  rw [replaceRows, getElem?_foldl_replaceRow]
  simp only [ExtTreeSet.mem_toList, ExtTreeSet.mem_ofList, List.contains_iff_mem,
    List.mem_append]

end PairTable

end GradedAccess
