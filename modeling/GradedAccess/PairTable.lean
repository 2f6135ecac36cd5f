import GradedAccess.Id
import Std.Data.ExtTreeMap
import Std.Data.ExtTreeSet

/-!
# Tables with two-part keys

Most rows of this library are found by two things at once: a role and a permission, a job and a
grade.  A `PairTable` holds such rows in the order of the first part of their keys, then of the
second.  Two tables with the same rows are equal, so a statement about all lookups of a table is a
statement about the table.

Listing the rows of one first part is a filter.  No second table says which keys belong together,
so none can disagree with the first.
-/

namespace GradedAccess

open Std (ExtTreeMap ExtTreeSet TransCmp TransOrd LawfulEqCmp LawfulEqOrd)

/-- A finite map from pairs, ordered by the first part of the pair and then by the second. -/
abbrev PairTable (α β γ : Type) [Ord α] [Ord β] := ExtTreeMap (α × β) γ (@compare (α × β) lexOrd)

namespace PairTable

/-! ## The orders of pairs with an identifier -/

instance (first second : Entity) : TransCmp (@compare (Id first × Id second) lexOrd) :=
  inferInstance

instance (first : Entity) : TransCmp (@compare (Id first × String) lexOrd) :=
  inferInstance

instance (second : Entity) : TransCmp (@compare (String × Id second) lexOrd) :=
  inferInstance

instance (first second : Entity) : LawfulEqCmp (@compare (Id first × Id second) lexOrd) :=
  inferInstance

instance (first : Entity) : LawfulEqCmp (@compare (Id first × String) lexOrd) :=
  inferInstance

instance (second : Entity) : LawfulEqCmp (@compare (String × Id second) lexOrd) :=
  inferInstance

/-! ## Operations -/

variable {α β γ : Type} [Ord α] [Ord β] [TransOrd α] [TransOrd β]

/-- The rows under one first part, in the order of the second parts. -/
def row [DecidableEq α] (table : PairTable α β γ) (a : α) : List (β × γ) :=
  table.toList.filterMap fun entry => if entry.1.1 = a then some (entry.1.2, entry.2) else none

/-- The first parts of all keys, each once and in order. -/
def firsts (table : PairTable α β γ) : List α :=
  (ExtTreeSet.ofList (table.keys.map (·.1))).toList

/-- The table without the rows under one first part. -/
def dropRow [DecidableEq α] (table : PairTable α β γ) (a : α) : PairTable α β γ :=
  table.filter fun key _ => key.1 ≠ a

/-- The table with rows put under one first part, one after another. -/
def putRow (table : PairTable α β γ) (a : α) (rows : List (β × γ)) : PairTable α β γ :=
  rows.foldl (fun table entry => table.insert (a, entry.1) entry.2) table

@[simp] theorem putRow_nil (table : PairTable α β γ) (a : α) : table.putRow a [] = table := rfl

@[simp] theorem putRow_cons (table : PairTable α β γ) (a : α) (b : β) (c : γ)
    (rows : List (β × γ)) :
    table.putRow a ((b, c) :: rows) = putRow (table.insert (a, b) c) a rows := rfl

/-- The last of some rows with a key. -/
def lastFor [DecidableEq β] (b : β) : List (β × γ) → Option γ
  | [] => none
  | row :: rows => (lastFor b rows).or (if row.1 = b then some row.2 else none)

/-! ## What the operations do to a lookup -/

variable [LawfulEqOrd α] [LawfulEqOrd β]

/-- A key is found under its first part exactly when it is found at all. -/
theorem mem_row_iff [DecidableEq α] {table : PairTable α β γ} {a : α} {b : β} {c : γ} :
    (b, c) ∈ table.row a ↔ table[(a, b)]? = some c := by
  rw [← ExtTreeMap.mem_toList_iff_getElem?_eq_some]
  simp only [row, List.mem_filterMap, Option.ite_none_right_eq_some, Option.some.injEq,
    Prod.mk.injEq]
  constructor
  · rintro ⟨⟨⟨a', b'⟩, c'⟩, hmem, rfl, rfl, rfl⟩
    exact hmem
  · intro hmem
    exact ⟨((a, b), c), hmem, rfl, rfl, rfl⟩

/-- The first parts are those of the keys. -/
theorem mem_firsts_iff [DecidableEq α] {table : PairTable α β γ} {a : α} :
    a ∈ table.firsts ↔ ∃ b, (a, b) ∈ table := by
  rw [firsts, ExtTreeSet.mem_toList, ExtTreeSet.mem_ofList, List.contains_iff_mem, List.mem_map]
  constructor
  · rintro ⟨⟨a', b⟩, hmem, rfl⟩
    exact ⟨b, ExtTreeMap.mem_keys.1 hmem⟩
  · rintro ⟨b, hmem⟩
    exact ⟨(a, b), ExtTreeMap.mem_keys.2 hmem, rfl⟩

/-- Dropping a row touches no other. -/
theorem getElem?_dropRow [DecidableEq α] (table : PairTable α β γ) (a a' : α) (b : β) :
    (table.dropRow a)[(a', b)]? = if a' = a then none else table[(a', b)]? := by
  by_cases h : a' = a
  · simp [dropRow, h]
  · simp only [dropRow, ExtTreeMap.getElem?_filter', h, if_false]
    cases table[(a', b)]? <;> simp [h]

/-- Of the rows put under one first part the last with a key counts; the others stay. -/
theorem getElem?_putRow [DecidableEq α] [DecidableEq β] (table : PairTable α β γ) (a : α)
    (rows : List (β × γ)) (a' : α) (b : β) :
    (table.putRow a rows)[(a', b)]? =
      if a' = a then (lastFor b rows).or table[(a', b)]? else table[(a', b)]? := by
  induction rows generalizing table with
  | nil => simp [lastFor]
  | cons row rows ih =>
    rw [putRow_cons, ih]
    simp only [ExtTreeMap.getElem?_insert, LawfulEqOrd.compare_eq_iff_eq, Prod.mk.injEq, lastFor]
    by_cases ha : a' = a
    · by_cases hb : row.1 = b
      · simp [ha, hb]
      · simp [ha, hb]
    · simp [ha, Ne.symm ha]

end PairTable

end GradedAccess
