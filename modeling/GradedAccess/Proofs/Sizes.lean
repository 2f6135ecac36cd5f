import GradedAccess.Proofs.Tables
import Mathlib.Data.List.Dedup
import Mathlib.Data.List.Perm.Basic

/-!
# How many rows a table has

A table that was filled from rows with distinct keys has as many entries as there are rows
(`size_eq_length`).  A replaced row changes the number of entries twice: what goes is what was held
and is not brought again, and what comes is what is brought and was not held (`size_replaceRow`).
The count rests on two lists with the same members, each of them once, having the same length.
-/

namespace GradedAccess

open Std (ExtTreeMap TransOrd LawfulEqOrd TransCmp)

/-! ## Lists with every member once -/

/-- Two lists that ascend by some key and have the same members are the same list. -/
theorem eq_of_ascending_keys {α β : Type} [Ord α] [TransOrd α] {key : β → α} {as bs : List β}
    (has : as.Pairwise fun a b => compare (key a) (key b) = .lt)
    (hbs : bs.Pairwise fun a b => compare (key a) (key b) = .lt) (h : ∀ a, a ∈ as ↔ a ∈ bs) :
    as = bs := by
  have hne : ∀ {a b : β}, compare (key a) (key b) = .lt → a ≠ b := by
    rintro a _ hlt rfl
    rw [Std.ReflOrd.compare_self] at hlt
    cases hlt
  have hperm : as.Perm bs := (List.perm_ext_iff_of_nodup (has.imp hne) (hbs.imp hne)).mpr h
  refine hperm.eq_of_pairwise (fun a b _ _ hlt hgt => ?_) has hbs
  rw [Std.OrientedCmp.gt_of_lt hlt] at hgt
  cases hgt

/-- Two ascending lists with the same members are the same list. -/
theorem eq_of_ascending {α : Type} [Ord α] [TransOrd α] {as bs : List α}
    (has : as.Pairwise fun a b => compare a b = .lt)
    (hbs : bs.Pairwise fun a b => compare a b = .lt) (h : ∀ a, a ∈ as ↔ a ∈ bs) : as = bs :=
  eq_of_ascending_keys has hbs h

section Shared

variable {α : Type} [DecidableEq α] {as bs : List α}

/-- What two lists share is as much of the one as of the other. -/
theorem length_filter_mem_comm (has : as.Nodup) (hbs : bs.Nodup) :
    (as.filter (· ∈ bs)).length = (bs.filter (· ∈ as)).length := by
  refine List.Perm.length_eq ((List.perm_ext_iff_of_nodup (has.filter _) (hbs.filter _)).mpr ?_)
  intro a
  simp only [List.mem_filter, decide_eq_true_eq]
  exact and_comm

/-- What is in the one list only makes the difference of the lengths. -/
theorem length_add_length_filter_notMem (has : as.Nodup) (hbs : bs.Nodup) :
    as.length + (bs.filter (· ∉ as)).length = bs.length + (as.filter (· ∉ bs)).length := by
  have hsplit : ∀ cs ds : List α,
      cs.length = (cs.filter (· ∈ ds)).length + (cs.filter (· ∉ ds)).length := by
    intro cs ds
    rw [List.length_eq_countP_add_countP (· ∈ ds), List.countP_eq_length_filter,
      List.countP_eq_length_filter]
    simp only [decide_eq_true_eq]
  have hshared := length_filter_mem_comm has hbs
  have ha := hsplit as bs
  have hb := hsplit bs as
  omega

end Shared

namespace PairTable

variable {α β γ : Type}

/-- A key is not brought when it is not among the keys of the fresh rows. -/
theorem not_any_iff_notMem_map [DecidableEq β] {fresh : List (β × γ)} {b : β} :
    (!fresh.any (·.1 == b)) = true ↔ b ∉ fresh.map (·.1) := by
  simp only [Bool.not_eq_true', List.any_eq_false, beq_iff_eq, List.mem_map, not_exists, not_and]

/-! ## Tables filled from rows -/

section Filled

variable {cmp : β → β → Ordering} [TransCmp cmp] [Std.LawfulEqCmp cmp] {rows : List (β × γ)}

/-- A table that is filled from rows with distinct keys has as many entries. -/
theorem size_ofList (hdistinct : (rows.map (·.1)).Nodup) :
    (ExtTreeMap.ofList rows cmp).size = rows.length := by
  refine ExtTreeMap.size_ofList ((List.pairwise_map.mp hdistinct).imp fun hne heq => hne ?_)
  rwa [Std.LawfulEqCmp.compare_eq_iff_eq] at heq

/-- A table that holds rows with distinct keys, and nothing else, has as many entries. -/
theorem size_eq_length [DecidableEq β] {table : ExtTreeMap β γ cmp}
    (hdistinct : (rows.map (·.1)).Nodup) (h : ∀ key, table[key]? = lastFor key rows) :
    table.size = rows.length := by
  have htable : table = ExtTreeMap.ofList rows cmp := by
    refine ExtTreeMap.ext_getElem? fun key => ?_
    rw [h, getElem?_ofList]
  rw [htable, size_ofList hdistinct]

end Filled

variable [Ord α] [Ord β] [TransOrd α] [TransOrd β] [LawfulEqOrd α] [LawfulEqOrd β]
variable [DecidableEq α]

/-- A table that holds rows with distinct pairs of keys, and nothing else, has as many entries. -/
theorem size_eq_length_of_freshRow [DecidableEq β] {table : PairTable α β γ}
    {fresh : List (α × β × γ)} (hdistinct : (fresh.map fun row => (row.1, row.2.1)).Nodup)
    (h : ∀ a b, table[(a, b)]? = lastFor b (freshRow fresh a)) : table.size = fresh.length := by
  let rows : List ((α × β) × γ) := fresh.map fun row => ((row.1, row.2.1), row.2.2)
  have hfresh : rows.map (fun row => (row.1.1, row.1.2, row.2)) = fresh := by
    rw [List.map_map]
    exact List.map_id' fresh
  have hlookup : ∀ key, table[key]? = lastFor key rows := by
    rintro ⟨a, b⟩
    rw [h, lastFor_pair, hfresh]
  rw [size_eq_length (by rwa [List.map_map]) hlookup, List.length_map]

/-! ## Replacing a row -/

omit [LawfulEqOrd α] [LawfulEqOrd β] in
/-- The entries of a table are those under one first part and those under the others. -/
theorem size_eq_dropRow_add_row (table : PairTable α β γ) (a : α) :
    table.size = (table.dropRow a).size + (table.row a).length := by
  rw [← ExtTreeMap.length_toList, ← ExtTreeMap.length_toList, dropRow, ExtTreeMap.toList_filter,
    row, List.length_filterMap_eq_countP, ← List.countP_eq_length_filter,
    List.length_eq_countP_add_countP fun entry : (α × β) × γ => entry.1.1 ≠ a]
  congr 1
  refine List.countP_congr fun entry _ => ?_
  by_cases h : entry.1.1 = a <;> simp [h]

omit [LawfulEqOrd β] in
/-- The keys under one first part are ascending. -/
theorem pairwise_map_row (table : PairTable α β γ) (a : α) :
    ((table.row a).map (·.1)).Pairwise fun b b' => compare b b' = .lt :=
  List.pairwise_map.mpr (pairwise_row table a)

/-- The keys under one first part are listed once each. -/
theorem nodup_map_row (table : PairTable α β γ) (a : α) : ((table.row a).map (·.1)).Nodup :=
  List.pairwise_map.mpr (distinct_row table a)

theorem mem_map_row_iff {table : PairTable α β γ} {a : α} {b : β} :
    b ∈ (table.row a).map (·.1) ↔ (a, b) ∈ table := by
  rw [mem_iff_exists]
  simp only [List.mem_map, Prod.exists, exists_and_right, exists_eq_right, mem_row_iff]

variable [DecidableEq β]

omit [LawfulEqOrd α] [LawfulEqOrd β] in
theorem stale_eq_filter (table : PairTable α β γ) (a : α) (fresh : List (β × γ)) :
    table.stale a fresh = ((table.row a).map (·.1)).filter (· ∉ fresh.map (·.1)) := by
  refine List.filter_congr fun b _ => ?_
  rw [Bool.eq_iff_iff, not_any_iff_notMem_map, decide_eq_true_eq]

/-- A replaced row has as many entries as distinct keys were brought. -/
theorem length_row_replaceRow (table : PairTable α β γ) (a : α) (fresh : List (β × γ)) :
    ((table.replaceRow a fresh).1.row a).length = (fresh.map (·.1)).dedup.length := by
  rw [← List.length_map (·.1)]
  have hnodup := nodup_map_row (table.replaceRow a fresh).1 a
  refine List.Perm.length_eq ((List.perm_ext_iff_of_nodup hnodup (List.nodup_dedup _)).mpr ?_)
  intro b
  rw [mem_map_row_iff, mem_iff_exists, List.mem_dedup, getElem?_replaceRow, if_pos rfl,
    ← Option.ne_none_iff_exists', ne_eq, lastFor_eq_none_iff]
  simp

/-- Of the entries that are held, the keys that are not brought again go, and the keys that were
not held come. -/
theorem size_replaceRow (table : PairTable α β γ) (a : α) (fresh : List (β × γ)) :
    (table.replaceRow a fresh).1.size + (table.replaceRow a fresh).2.removed =
      table.size + ((fresh.map (·.1)).dedup.filter (· ∉ (table.row a).map (·.1))).length := by
  have hothers : (table.replaceRow a fresh).1.dropRow a = table.dropRow a := by
    refine ExtTreeMap.ext_getElem? fun key => ?_
    rw [getElem?_dropRow, getElem?_dropRow]
    by_cases h : key.1 = a
    · rw [if_pos h, if_pos h]
    · rw [if_neg h, if_neg h, getElem?_replaceRow, if_neg h]
  have hremoved : (table.replaceRow a fresh).2.removed =
      (((table.row a).map (·.1)).filter (· ∉ (fresh.map (·.1)).dedup)).length := by
    rw [replaceRow, stale_eq_filter]
    simp only [List.mem_dedup]
  have hbalance :=
    length_add_length_filter_notMem (nodup_map_row table a) (List.nodup_dedup (fresh.map (·.1)))
  rw [List.length_map] at hbalance
  rw [size_eq_dropRow_add_row (table.replaceRow a fresh).1 a, size_eq_dropRow_add_row table a,
    length_row_replaceRow, hothers, hremoved]
  omega

end PairTable

end GradedAccess
