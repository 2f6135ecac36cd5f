import GradedAccess.IndexedTable
import GradedAccess.Proofs.Sizes

/-!
# Tables with an index have the entries they list

The entries of an `IndexedTable` and its index are two accounts of the same keys.  `Sound` says that
they agree, and that no first part is listed without keys.  Between the two halves of a replacement
they do not agree: what is out of date is still listed, on purpose.

Both halves have one lemma for each table (`listed_publish`, `getElem?_publish`, `listed_prune`,
`getElem?_prune`).  Together they make the step lemma `Sound.replaceRow`, in which an entry that is
out of date is erased because the index lists it.  By induction an empty table stays sound in all
replacements (`Sound.after`).

A sound table is nothing else than its entries: a replacement leaves the entries and the tally that
`PairTable.replaceRow` has (`Sound.entries_replaceRow`, `Sound.tally_replaceRow`), and what the index
lists is what the entries say (`Sound.keys_eq`, `Sound.row_eq`, `Sound.firsts_eq`).
-/

namespace GradedAccess

open Std (ExtTreeMap ExtTreeSet TransOrd LawfulEqOrd)

namespace PairTable

/-- The last row with a key is the last of the rows with that key. -/
theorem lastFor_eq_getLast? {β γ : Type} [DecidableEq β] (b : β) (rows : List (β × γ)) :
    lastFor b rows = ((rows.filter (·.1 = b)).getLast?).map (·.2) := by
  induction rows with
  | nil => rfl
  | cons row rows ih =>
    rw [lastFor, ih, List.filter_cons]
    by_cases h : row.1 = b
    · rw [if_pos h, if_pos (decide_eq_true h), List.getLast?_cons]
      cases (rows.filter (·.1 = b)).getLast? <;> rfl
    · rw [if_neg h, if_neg (by rwa [decide_eq_true_eq]), Option.or_none]

end PairTable

namespace IndexedTable

variable {α β γ : Type} [Ord α] [Ord β] [TransOrd α] [TransOrd β] [LawfulEqOrd α] [LawfulEqOrd β]
variable [DecidableEq α] [DecidableEq β]
variable {table : IndexedTable α β γ} {a a' : α} {b : β} {fresh : List (β × γ)}

/-- The two accounts of the keys agree, and no first part is listed without keys. -/
structure Sound (table : IndexedTable α β γ) : Prop where
  mem_listed_iff : ∀ a b, b ∈ table.listed a ↔ (a, b) ∈ table.entries
  exists_listed : ∀ a ∈ table.index, ∃ b, b ∈ table.listed a

/-! ## The two halves of a replacement -/

omit [LawfulEqOrd β] [DecidableEq β] in
theorem listed_publish (table : IndexedTable α β γ) (a a' : α) (fresh : List (β × γ)) :
    (table.publish a fresh).listed a' =
      if a' = a then (table.listed a).insertMany (fresh.map (·.1)) else table.listed a' := by
  rw [listed, publish]
  by_cases h : a' = a
  · rw [if_pos h, h, ExtTreeMap.getElem?_insert_self, Option.getD_some]
  · rw [if_neg h, getElem?_insert_of_ne _ _ h, listed]

theorem getElem?_publish (table : IndexedTable α β γ) (a a' : α) (b : β) (fresh : List (β × γ)) :
    (table.publish a fresh).entries[(a', b)]? =
      if a' = a then (PairTable.lastFor b fresh).or table.entries[(a', b)]?
      else table.entries[(a', b)]? :=
  PairTable.getElem?_putRow table.entries a fresh a' b

/-- Once the fresh keys are listed, what is out of date is what was listed before and is not
brought. -/
theorem mem_stale_publish_iff :
    b ∈ (table.publish a fresh).stale a fresh ↔ b ∈ table.listed a ∧ b ∉ fresh.map (·.1) := by
  rw [stale, List.mem_filter, PairTable.not_any_iff_notMem_map, keys, ExtTreeSet.mem_toList,
    listed_publish, if_pos rfl, ExtTreeSet.mem_insertMany_list, List.contains_iff_mem]
  constructor
  · rintro ⟨hmem | hmem, hnot⟩
    · exact ⟨hmem, hnot⟩
    · exact absurd hmem hnot
  · rintro ⟨hmem, hnot⟩
    exact ⟨Or.inl hmem, hnot⟩

omit [LawfulEqOrd β] in
theorem listed_prune (table : IndexedTable α β γ) (a a' : α) (fresh : List (β × γ)) :
    (table.prune a fresh).listed a' =
      if a' = a then ExtTreeSet.ofList (fresh.map (·.1)) else table.listed a' := by
  rw [listed, prune]
  by_cases h : a' = a
  · rw [if_pos h, h]
    cases fresh with
    | nil => simp
    | cons entry fresh => simp
  · rw [if_neg h]
    split
    · rw [getElem?_erase_of_ne _ h, listed]
    · rw [getElem?_insert_of_ne _ _ h, listed]

/-- What is out of date is erased, and the other entries stay. -/
theorem getElem?_prune (table : IndexedTable α β γ) (a a' : α) (b : β) (fresh : List (β × γ)) :
    (table.prune a fresh).entries[(a', b)]? =
      if a' = a ∧ b ∈ table.stale a fresh then none else table.entries[(a', b)]? := by
  have hgone : (a', b) ∈ (table.stale a fresh).map (a, ·) ↔ a' = a ∧ b ∈ table.stale a fresh := by
    rw [List.mem_map]
    constructor
    · rintro ⟨key, hmem, heq⟩
      obtain ⟨rfl, rfl⟩ := Prod.mk.inj heq
      exact ⟨rfl, hmem⟩
    · rintro ⟨rfl, hmem⟩
      exact ⟨b, hmem, rfl⟩
  have hentries : (table.prune a fresh).entries =
      ((table.stale a fresh).map (a, ·)).foldl (fun entries key => entries.erase key)
        table.entries := List.foldl_map.symm
  rw [hentries, getElem?_foldl_erase]
  simp only [hgone]

/-! ## One replacement -/

omit [LawfulEqOrd β] in
theorem listed_replaceRow (table : IndexedTable α β γ) (a a' : α) (fresh : List (β × γ)) :
    (table.replaceRow a fresh).1.listed a' =
      if a' = a then ExtTreeSet.ofList (fresh.map (·.1)) else table.listed a' := by
  rw [replaceRow, listed_prune, listed_publish]
  by_cases h : a' = a
  · rw [if_pos h, if_pos h]
  · rw [if_neg h, if_neg h, if_neg h]

omit [LawfulEqOrd β] [DecidableEq α] in
/-- A first part is listed after a replacement if it was listed before, or its row was replaced by
one that is not empty. -/
theorem mem_index_of_replaceRow (h : a' ∈ (table.replaceRow a fresh).1.index) :
    (a' = a ∧ fresh ≠ []) ∨ (a' ≠ a ∧ a' ∈ table.index) := by
  by_cases ha : a' = a
  · left
    refine ⟨ha, ?_⟩
    rintro rfl
    simp only [replaceRow, prune, List.isEmpty_nil, if_true, ExtTreeMap.mem_erase] at h
    exact h.1 (LawfulEqOrd.compare_eq_iff_eq.mpr ha.symm)
  · right
    refine ⟨ha, ?_⟩
    have hpublished : a' ∈ (table.publish a fresh).index := by
      simp only [replaceRow, prune] at h
      split at h
      · exact (ExtTreeMap.mem_erase.mp h).2
      · exact (mem_insert_cases h).resolve_left ha
    exact (mem_insert_cases hpublished).resolve_left ha

/-- The entries after a replacement are those of the table that has no index: an entry that is out
of date is erased because it is listed. -/
theorem Sound.entries_replaceRow (h : table.Sound) (a : α) (fresh : List (β × γ)) :
    (table.replaceRow a fresh).1.entries = (table.entries.replaceRow a fresh).1 := by
  refine ExtTreeMap.ext_getElem? fun ⟨a', b⟩ => ?_
  rw [replaceRow, getElem?_prune, getElem?_publish, PairTable.getElem?_replaceRow]
  simp only [mem_stale_publish_iff]
  by_cases ha : a' = a
  swap
  · rw [if_neg (not_and_of_not_left _ ha), if_neg ha, if_neg ha]
  rw [if_pos ha, if_pos ha]
  subst ha
  by_cases hfresh : b ∈ fresh.map (·.1)
  · obtain ⟨⟨_, value⟩, hmem, rfl⟩ := List.mem_map.mp hfresh
    obtain ⟨last, hlast⟩ := PairTable.exists_lastFor hmem
    rw [if_neg fun hgone => hgone.2.2 hfresh, hlast, Option.some_or]
  · have hnone : PairTable.lastFor b fresh = none :=
      PairTable.lastFor_eq_none_iff.mpr fun row hmem heq =>
        hfresh (List.mem_map.mpr ⟨row, hmem, heq⟩)
    rw [hnone, Option.none_or]
    split
    · rfl
    · next hkept =>
      refine ExtTreeMap.getElem?_eq_none fun hmem => hkept ⟨rfl, ?_, hfresh⟩
      exact (h.mem_listed_iff a' b).mpr hmem

/-- A replacement leaves a sound table sound. -/
theorem Sound.replaceRow (h : table.Sound) (a : α) (fresh : List (β × γ)) :
    (table.replaceRow a fresh).1.Sound where
  mem_listed_iff a' b := by
    rw [listed_replaceRow, h.entries_replaceRow, mem_iff_exists, PairTable.getElem?_replaceRow]
    by_cases ha : a' = a
    · rw [if_pos ha, if_pos ha, ExtTreeSet.mem_ofList, List.contains_iff_mem,
        ← Option.ne_none_iff_exists', ne_eq, PairTable.lastFor_eq_none_iff]
      simp
    · rw [if_neg ha, if_neg ha, h.mem_listed_iff, mem_iff_exists]
  exists_listed a' hmem := by
    rw [listed_replaceRow]
    rcases mem_index_of_replaceRow hmem with ⟨ha, hne⟩ | ⟨ha, hmem⟩
    · obtain ⟨row, hrow⟩ := List.exists_mem_of_ne_nil fresh hne
      rw [if_pos ha]
      refine ⟨row.1, ?_⟩
      rw [ExtTreeSet.mem_ofList, List.contains_iff_mem]
      exact List.mem_map_of_mem hrow
    · rw [if_neg ha]
      exact h.exists_listed a' hmem

/-! ## A sound table is its entries -/

omit [LawfulEqOrd α] [DecidableEq α] [DecidableEq β] in
theorem mem_keys_iff : b ∈ table.keys a ↔ b ∈ table.listed a := by
  rw [keys, ExtTreeSet.mem_toList]

omit [DecidableEq β] in
/-- The keys that are listed are those of the entries. -/
theorem Sound.keys_eq (h : table.Sound) (a : α) :
    table.keys a = (table.entries.row a).map (·.1) := by
  refine eq_of_ascending ExtTreeSet.ordered_toList (PairTable.pairwise_map_row _ a) fun b => ?_
  rw [mem_keys_iff, h.mem_listed_iff, PairTable.mem_map_row_iff]

omit [DecidableEq β] in
/-- The entries of the keys that are listed are the entries. -/
theorem Sound.row_eq (h : table.Sound) (a : α) : table.row a = table.entries.row a := by
  rw [IndexedTable.row, h.keys_eq, List.filterMap_map]
  have hfound : ∀ row ∈ table.entries.row a,
      ((fun b => (table.get a b).map (b, ·)) ∘ (·.1)) row = some row := by
    intro row hmem
    rw [Function.comp_apply, get, PairTable.mem_row_iff.mp hmem, Option.map_some]
  rw [List.filterMap_congr hfound, List.filterMap_some]

omit [DecidableEq β] in
/-- The first parts that are listed are those of the entries. -/
theorem Sound.firsts_eq (h : table.Sound) : table.firsts = table.entries.firsts := by
  refine eq_of_ascending ExtTreeMap.ordered_keys ExtTreeSet.ordered_toList fun a => ?_
  rw [firsts, ExtTreeMap.mem_keys, PairTable.mem_firsts_iff]
  constructor
  · intro hmem
    obtain ⟨b, hb⟩ := h.exists_listed a hmem
    exact ⟨b, (h.mem_listed_iff a b).mp hb⟩
  · rintro ⟨b, hb⟩
    rw [← h.mem_listed_iff, listed] at hb
    by_contra hnot
    rw [ExtTreeMap.getElem?_eq_none hnot, Option.getD_none] at hb
    exact ExtTreeSet.not_mem_empty hb

/-- A replacement counts as it does in the table that has no index. -/
theorem Sound.tally_replaceRow (h : table.Sound) (a : α) (fresh : List (β × γ)) :
    (table.replaceRow a fresh).2 = (table.entries.replaceRow a fresh).2 := by
  have hstale : (table.publish a fresh).stale a fresh = table.entries.stale a fresh := by
    refine eq_of_ascending (ExtTreeSet.ordered_toList.filter _)
      ((PairTable.pairwise_map_row _ a).filter _) fun b => ?_
    rw [mem_stale_publish_iff, PairTable.stale_eq_filter, List.mem_filter, decide_eq_true_eq,
      PairTable.mem_map_row_iff, h.mem_listed_iff]
  rw [IndexedTable.replaceRow, PairTable.replaceRow, hstale]

/-! ## Any replacements -/

/-- The table after some replacements, one after another. -/
def after (table : IndexedTable α β γ) (calls : List (α × List (β × γ))) : IndexedTable α β γ :=
  calls.foldl (fun table call => (table.replaceRow call.1 call.2).1) table

omit [LawfulEqOrd α] [LawfulEqOrd β] [DecidableEq α] [DecidableEq β] in
theorem Sound.empty : Sound ({} : IndexedTable α β γ) where
  mem_listed_iff a b := by simp [listed]
  exists_listed a hmem := absurd hmem ExtTreeMap.not_mem_empty

/-- Replacements leave a sound table sound. -/
theorem Sound.after (h : table.Sound) (calls : List (α × List (β × γ))) :
    (table.after calls).Sound := by
  induction calls generalizing table with
  | nil => exact h
  | cons call calls ih => exact ih (h.replaceRow call.1 call.2)

/-- Replacements leave the entries that they leave in the table that has no index. -/
theorem Sound.entries_after (h : table.Sound) (calls : List (α × List (β × γ))) :
    (table.after calls).entries =
      calls.foldl (fun entries call => (entries.replaceRow call.1 call.2).1) table.entries := by
  induction calls generalizing table with
  | nil => rfl
  | cons call calls ih =>
    rw [List.foldl_cons, ← h.entries_replaceRow]
    exact ih (h.replaceRow call.1 call.2)

/-- What can be looked up is what is listed.  Nothing is listed twice, and no first part is listed
for nothing. -/
structure Agrees (table : IndexedTable α β γ) : Prop where
  isSome_get_iff : ∀ a b, (table.get a b).isSome ↔ b ∈ table.keys a
  mem_row_iff : ∀ a b c, (b, c) ∈ table.row a ↔ table.get a b = some c
  mem_firsts_iff : ∀ a, a ∈ table.firsts ↔ ∃ b, (table.get a b).isSome
  nodup_keys : ∀ a, (table.keys a).Nodup
  nodup_firsts : table.firsts.Nodup

/-- What a replacement comes to: lookups under the first part find the last value that was brought,
all others find what they found, and the tally and the number of entries say what has changed. -/
structure Replaces (table : IndexedTable α β γ) (a : α) (fresh : List (β × γ))
    (replaced : IndexedTable α β γ) (tally : Tally) : Prop where
  get_self : ∀ b, replaced.get a b = ((fresh.filter (·.1 = b)).getLast?).map (·.2)
  get_of_ne : ∀ a' b, a' ≠ a → replaced.get a' b = table.get a' b
  keys_of_ne : ∀ a', a' ≠ a → replaced.keys a' = table.keys a'
  upserted : tally.upserted = fresh.length
  removed : tally.removed = ((table.keys a).filter (· ∉ fresh.map (·.1))).length
  removed_le : tally.removed ≤ table.size
  size : replaced.size =
    table.size - tally.removed + ((fresh.map (·.1)).dedup.filter (· ∉ table.keys a)).length

omit [DecidableEq β] in
/-- A sound table agrees with its index in all that can be asked. -/
theorem Sound.agrees (h : table.Sound) : table.Agrees where
  isSome_get_iff a b := by
    rw [mem_keys_iff, h.mem_listed_iff, get, ExtTreeMap.isSome_getElem?_iff_mem]
  mem_row_iff a b c := by
    rw [h.row_eq, PairTable.mem_row_iff, get]
  mem_firsts_iff a := by
    rw [h.firsts_eq, PairTable.mem_firsts_iff]
    simp only [get, ExtTreeMap.isSome_getElem?_iff_mem]
  nodup_keys a := nodup_toList (table.listed a)
  nodup_firsts := nodup_keys table.index

/-- A replacement in a sound table replaces the row, and nothing else. -/
theorem Sound.replaces (h : table.Sound) (a : α) (fresh : List (β × γ)) :
    table.Replaces a fresh (table.replaceRow a fresh).1 (table.replaceRow a fresh).2 := by
  have hremoved : (table.replaceRow a fresh).2.removed =
      ((table.keys a).filter (· ∉ fresh.map (·.1))).length := by
    rw [h.tally_replaceRow, PairTable.replaceRow, PairTable.stale_eq_filter, h.keys_eq]
  have hbalance := PairTable.size_replaceRow table.entries a fresh
  rw [← h.entries_replaceRow, ← h.tally_replaceRow, ← h.keys_eq] at hbalance
  have hle : (table.replaceRow a fresh).2.removed ≤ table.size := by
    have hkeys : (table.keys a).length ≤ table.size := by
      rw [h.keys_eq, List.length_map, size, PairTable.size_eq_dropRow_add_row table.entries a]
      exact Nat.le_add_left _ _
    rw [hremoved]
    exact Nat.le_trans (List.length_filter_le _ _) hkeys
  refine ⟨fun b => ?_, fun a' b ha => ?_, fun a' ha => ?_, rfl, hremoved, hle, ?_⟩
  · rw [get, h.entries_replaceRow, PairTable.getElem?_replaceRow, if_pos rfl,
      PairTable.lastFor_eq_getLast?]
  · rw [get, h.entries_replaceRow, PairTable.getElem?_replaceRow, if_neg ha, get]
  · rw [keys, listed_replaceRow, if_neg ha, keys]
  · rw [size] at hle ⊢
    rw [size]
    omega

/-- **Tables with an index have the entries they list.**  After any replacements in an empty table,
what can be looked up is what the index lists.  The next replacement replaces the entries of one
first part by the last values that are brought, counts what has gone, and touches nothing else.  All
this is what the table does that has no index: it has the same entries after the same replacements,
the same rows and first parts, and the same tallies. -/
theorem entries_match_index (calls : List (α × List (β × γ))) :
    let table : IndexedTable α β γ := after {} calls
    table.Agrees ∧
      (∀ a fresh,
        table.Replaces a fresh (table.replaceRow a fresh).1 (table.replaceRow a fresh).2) ∧
      table.entries =
        calls.foldl (fun entries call => (entries.replaceRow call.1 call.2).1) ∅ ∧
      (∀ a, table.row a = table.entries.row a) ∧
      table.firsts = table.entries.firsts ∧
      ∀ a fresh, (table.replaceRow a fresh).2 = (table.entries.replaceRow a fresh).2 := by
  intro table
  have hsound : table.Sound := Sound.empty.after calls
  exact ⟨hsound.agrees, hsound.replaces, Sound.empty.entries_after calls, hsound.row_eq,
    hsound.firsts_eq, hsound.tally_replaceRow⟩

/-- Two roles with grants, where the first grant of one of them was brought twice. -/
def granted : List (RoleId × List (PermissionId × Bool)) :=
  [(⟨1⟩, [(⟨1⟩, true), (⟨2⟩, true), (⟨1⟩, false)]), (⟨2⟩, [(⟨1⟩, true)])]

/-- A role that loses one grant, keeps one with another value and gets a new one: nothing is left of
the first, and as many entries are there as before. -/
theorem regranted_role :
    let table := after {} granted
    let regranted := table.replaceRow ⟨1⟩ [(⟨2⟩, false), (⟨3⟩, true)]
    table.Agrees ∧
      table.Replaces ⟨1⟩ [(⟨2⟩, false), (⟨3⟩, true)] regranted.1 regranted.2 ∧
      table.get ⟨1⟩ ⟨1⟩ = some false ∧ regranted.1.get ⟨1⟩ ⟨1⟩ = none ∧
      regranted.1.keys ⟨1⟩ = [⟨2⟩, ⟨3⟩] ∧ regranted.2 = ⟨2, 1⟩ ∧
      table.size = 3 ∧ regranted.1.size = 3 := by
  obtain ⟨hagrees, hreplaces, -⟩ := entries_match_index granted
  exact ⟨hagrees, hreplaces ⟨1⟩ [(⟨2⟩, false), (⟨3⟩, true)], by decide +kernel⟩

end IndexedTable

end GradedAccess
