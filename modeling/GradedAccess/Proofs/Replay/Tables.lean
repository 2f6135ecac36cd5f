import GradedAccess.Proofs.Tables
import Mathlib.Algebra.BigOperators.Group.List.Basic
import Mathlib.Algebra.GroupWithZero.Nat
import Mathlib.Data.List.Nodup

/-!
# Replacing rows again

A replacement of rows that are held already changes nothing: the table stays as it is, nothing is
gone, and what is brought is counted as it was counted before.  So a replacement that is made twice
has the effect of one (`replaceRows_again`).  The second time it may name fewer first parts than
the first time, as long as it brings the same rows.

What is counted as brought is all that is brought (`upserted_replaceRows`), whichever first parts
are named besides.
-/

namespace GradedAccess

open Std (ExtTreeMap ExtTreeSet TransOrd LawfulEqOrd)

/-- The tally of a replacement that is made again: as much is brought, and nothing is gone. -/
def Tally.again (tally : Tally) : Tally := { tally with removed := 0 }

namespace PairTable

variable {α β γ : Type} [DecidableEq α]

/-! ## What is counted -/

/-- Every fresh row is under one of the first parts that are visited, if each of them is visited
once and none is left out. -/
theorem sum_length_freshRow {visited : List α} {fresh : List (α × β × γ)}
    (hnodup : visited.Nodup) (hall : ∀ row ∈ fresh, row.1 ∈ visited) :
    (visited.map fun a => (freshRow fresh a).length).sum = fresh.length := by
  induction fresh with
  | nil =>
    have hzero : ∀ n ∈ visited.map fun a => (freshRow ([] : List (α × β × γ)) a).length, n = 0 := by
      intro n hn
      obtain ⟨a, -, rfl⟩ := List.mem_map.mp hn
      rfl
    exact List.sum_eq_zero hzero
  | cons row fresh ih =>
    rw [List.forall_mem_cons] at hall
    have hone : (visited.map fun a => if a = row.1 then 1 else 0).sum = 1 := by
      rw [List.sum_map_eq_nsmul_single row.1, List.count_eq_one_of_mem hnodup hall.1, if_pos rfl]
      · rfl
      · intro a hne _
        exact if_neg hne
    have hlength : ∀ a, (freshRow (row :: fresh) a).length =
        (freshRow fresh a).length + if a = row.1 then 1 else 0 := by
      intro a
      rw [freshRow_cons]
      by_cases h : a = row.1
      · rw [if_pos h.symm, if_pos h, List.length_cons]
      · rw [if_neg (Ne.symm h), if_neg h, Nat.add_zero]
    simp only [hlength]
    rw [List.sum_map_add, ih hall.2, hone, List.length_cons]

variable [DecidableEq β] [Ord α] [Ord β] [TransOrd α] [TransOrd β]

/-- Replacing one row after another counts what is brought for each of them. -/
theorem upserted_foldl_replaceRow (fresh : List (α × β × γ)) (visited : List α)
    (state : PairTable α β γ × Tally) :
    (visited.foldl (fun state a =>
      let replaced := replaceRow state.1 a (freshRow fresh a)
      (replaced.1, state.2 + replaced.2)) state).2.upserted =
      state.2.upserted + (visited.map fun a => (freshRow fresh a).length).sum := by
  induction visited generalizing state with
  | nil => rfl
  | cons a visited ih =>
    rw [List.foldl_cons, ih, List.map_cons, List.sum_cons, Tally.upserted_add, ← Nat.add_assoc]
    rfl

variable [LawfulEqOrd α] [LawfulEqOrd β]

omit [LawfulEqOrd β] in
/-- A replacement counts every row that is brought. -/
theorem upserted_replaceRows (table : PairTable α β γ) (named : List α)
    (fresh : List (α × β × γ)) : (table.replaceRows named fresh).2.upserted = fresh.length := by
  rw [replaceRows, upserted_foldl_replaceRow, sum_length_freshRow (nodup_toList _),
    Tally.upserted_zero, Nat.zero_add]
  intro row hrow
  rw [ExtTreeSet.mem_toList, ExtTreeSet.mem_ofList, List.contains_iff_mem]
  exact List.mem_append_right _ (List.mem_map_of_mem hrow)

/-! ## Replacing rows by what they hold -/

/-- A row that is replaced by what it holds stays, and nothing is gone. -/
theorem replaceRow_of_held {table : PairTable α β γ} {a : α} {fresh : List (β × γ)}
    (h : ∀ b, table[(a, b)]? = lastFor b fresh) :
    table.replaceRow a fresh = (table, ⟨fresh.length, 0⟩) := by
  have hsame : (table.replaceRow a fresh).1 = table := by
    refine ExtTreeMap.ext_getElem? fun ⟨a', b⟩ => ?_
    rw [getElem?_replaceRow]
    split
    · next ha => rw [ha, h]
    · rfl
  have hstale : table.stale a fresh = [] := by
    rw [stale, List.filter_eq_nil_iff]
    intro b hb
    obtain ⟨⟨b, c⟩, hrow, rfl⟩ := List.mem_map.mp hb
    have hlast : lastFor b fresh = some c := (h b).symm.trans (mem_row_iff.mp hrow)
    have hbrought : fresh.any (·.1 == b) = true :=
      List.any_eq_true.mpr ⟨(b, c), mem_of_lastFor hlast, beq_self_eq_true b⟩
    simp [hbrought]
  refine Prod.ext hsame ?_
  rw [replaceRow, hstale, List.length_nil]

/-- Visiting rows that are replaced by what they hold changes none of them. -/
theorem foldl_replaceRow_of_held {table : PairTable α β γ} {fresh : List (α × β × γ)}
    {visited : List α}
    (h : ∀ a ∈ visited, ∀ b, table[(a, b)]? = lastFor b (freshRow fresh a)) (tally : Tally) :
    visited.foldl (fun state a =>
      let replaced := replaceRow state.1 a (freshRow fresh a)
      (replaced.1, state.2 + replaced.2)) (table, tally) =
      (table, tally + ⟨(visited.map fun a => (freshRow fresh a).length).sum, 0⟩) := by
  induction visited generalizing tally with
  | nil => rfl
  | cons a visited ih =>
    rw [List.forall_mem_cons] at h
    rw [List.foldl_cons]
    simp only [replaceRow_of_held h.1]
    rw [ih h.2, List.map_cons, List.sum_cons]
    exact congrArg (fun upserted => (table, (⟨upserted, tally.removed⟩ : Tally)))
      (Nat.add_assoc _ _ _)

/-- Rows that are replaced by what they hold stay, and nothing is gone. -/
theorem replaceRows_of_held {table : PairTable α β γ} {named : List α} {fresh : List (α × β × γ)}
    (h : ∀ a, a ∈ named ∨ a ∈ fresh.map (·.1) →
      ∀ b, table[(a, b)]? = lastFor b (freshRow fresh a)) :
    table.replaceRows named fresh = (table, ⟨fresh.length, 0⟩) := by
  have hvisited : ∀ a ∈ (ExtTreeSet.ofList (named ++ fresh.map (·.1))).toList, ∀ b,
      table[(a, b)]? = lastFor b (freshRow fresh a) := by
    intro a ha
    rw [ExtTreeSet.mem_toList, ExtTreeSet.mem_ofList, List.contains_iff_mem, List.mem_append] at ha
    exact h a ha
  have hrun := foldl_replaceRow_of_held hvisited 0
  have hupserted := upserted_replaceRows table named fresh
  rw [replaceRows, hrun] at hupserted
  rw [replaceRows, hrun, ← hupserted]
  rfl

/-- Replacing rows again changes nothing, also if only some of the first parts are named again. -/
theorem replaceRows_again (table : PairTable α β γ) {named named' : List α}
    (fresh : List (α × β × γ)) (hnamed : ∀ a ∈ named', a ∈ named) :
    (table.replaceRows named fresh).1.replaceRows named' fresh =
      ((table.replaceRows named fresh).1, (table.replaceRows named fresh).2.again) := by
  rw [replaceRows_of_held, Tally.again, upserted_replaceRows]
  intro a ha b
  rw [getElem?_replaceRows, if_pos]
  exact ha.imp_left (hnamed a)

/-- Emptying a row again changes nothing. -/
theorem replaceRow_nil_again (table : PairTable α β γ) (a : α) :
    (table.replaceRow a []).1.replaceRow a [] = ((table.replaceRow a []).1, 0) := by
  refine replaceRow_of_held fun b => ?_
  rw [getElem?_replaceRow, if_pos rfl]

end PairTable

end GradedAccess
