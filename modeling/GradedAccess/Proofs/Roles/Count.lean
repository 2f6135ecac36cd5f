import GradedAccess.Proofs.Replay.Roles
import GradedAccess.Proofs.Replay.Tables
import GradedAccess.Proofs.Roles.Renewal
import GradedAccess.Proofs.Sizes

/-!
# How many roles are counted, and how many are cached

A replacement of all roles visits jobs twice, once to empty them and once to fill them, and counts
the claims of every job it visits.  Emptying has none.  Where no two rows claim one slot, every row
is a claim of its job and of no other, so the claims of all jobs together are as many as the rows
(`upserted_replaceAll`).

All these rows are cached afterwards, and nothing else is, whatever the index held before
(`size_replaceAll`).  So as many roles are counted as are cached.
-/

namespace GradedAccess

namespace RoleIndex

variable {index : RoleIndex} {rows : List Role}

/-- Whether no two rows have one number, and no two claim one slot. -/
structure Apart (rows : List Role) : Prop where
  ids : (rows.map (·.id)).Nodup
  slots : (rows.map fun row => (row.job, row.grade)).Nodup

theorem Apart.distinct (h : Apart rows) : rows.Pairwise fun a b => a.id ≠ b.id :=
  List.pairwise_map.mp h.ids

theorem Apart.eq_of_slot (h : Apart rows) :
    ∀ a ∈ rows, ∀ b ∈ rows, a.job = b.job ∧ a.grade = b.grade → a = b := by
  intro a ha b hb hslot
  exact List.inj_on_of_nodup_map h.slots ha hb (Prod.ext hslot.1 hslot.2)

/-! ## What is counted -/

/-- A replacement of a job counts its claims. -/
theorem upserted_replaceJob (index : RoleIndex) (job : String) (rows : List Role) :
    (index.replaceJob job rows).2.upserted = (claims job rows).length := by
  rw [replaceJob, upserted_foldl_dropFrom]

/-- A replacement of one job after another counts the claims of each of them. -/
theorem upserted_replaceJobs (index : RoleIndex) (jobs : List String) (rows : List Role) :
    (index.replaceJobs jobs rows).2.upserted =
      (jobs.map fun job => (claims job rows).length).sum := by
  have hfold : ∀ (jobs : List String) (state : RoleIndex × Tally),
      (jobs.foldl (fun state job =>
        let replaced := state.1.replaceJob job rows
        (replaced.1, state.2 + replaced.2)) state).2.upserted =
      state.2.upserted + (jobs.map fun job => (claims job rows).length).sum := by
    intro jobs
    induction jobs with
    | nil => intro state; rfl
    | cons job jobs ih =>
      intro state
      rw [List.foldl_cons, ih, List.map_cons, List.sum_cons, Tally.upserted_add,
        upserted_replaceJob, Nat.add_assoc]
  rw [replaceJobs, hfold, Tally.upserted_zero, Nat.zero_add]

/-- Where no two rows claim one slot, a job has as many claims as rows. -/
theorem Apart.length_claims (h : Apart rows) (job : String) :
    (claims job rows).length =
      (PairTable.freshRow (rows.map fun row => (row.job, row.id, row)) job).length := by
  have hall : claims job rows = rows.filter (·.job = job) := by
    refine List.filter_eq_self.mpr fun row hmem => ?_
    obtain ⟨hlisted, hjob⟩ := List.mem_filter.mp hmem
    have hclaim := (mem_claims_iff_of_slots h.eq_of_slot).mpr
      ⟨hlisted, of_decide_eq_true hjob⟩
    exact (List.mem_filter.mp hclaim).2
  rw [hall, PairTable.freshRow, List.filterMap_map, List.length_filterMap_eq_countP,
    List.countP_eq_length_filter]
  congr 1
  refine List.filter_congr fun row _ => ?_
  by_cases hjob : row.job = job <;> simp [hjob]

/-- A replacement of all roles counts every row. -/
theorem upserted_replaceAll (index : RoleIndex) (h : Apart rows) :
    (index.replaceAll rows).2.upserted = rows.length := by
  have hnone : ∀ jobs : List String, (jobs.map fun job => (claims job []).length).sum = 0 := by
    intro jobs
    refine List.sum_eq_zero fun n hn => ?_
    obtain ⟨job, -, rfl⟩ := List.mem_map.mp hn
    rfl
  have hcovered : ∀ row ∈ rows.map fun row => (row.job, row.id, row),
      row.1 ∈ (Std.ExtTreeSet.ofList (rows.map (·.job))).toList := by
    intro entry hmem
    obtain ⟨row, hrow, rfl⟩ := List.mem_map.mp hmem
    exact mem_named_iff.mpr ⟨row, hrow, rfl⟩
  rw [replaceAll, replaceAllIn]
  simp only [Tally.upserted_add, upserted_replaceJobs, hnone, h.length_claims]
  rw [PairTable.sum_length_freshRow (nodup_toList _) hcovered, List.length_map, Nat.zero_add, Nat.add_zero]

/-! ## What is cached -/

/-- After a replacement of all roles there are as many as there were rows. -/
theorem size_replaceAll (hfiled : index.Filed) (h : Apart rows) :
    (index.replaceAll rows).1.size = rows.length := by
  have hids : ((rows.map fun row => (row.id, row)).map (·.1)).Nodup := by
    rw [List.map_map]
    exact h.ids
  rw [size, PairTable.size_eq_length hids, List.length_map]
  intro id
  ext row
  rw [PairTable.lastFor_eq_some_iff (List.pairwise_map.mp hids)]
  refine (role_replaceAll h.distinct hfiled).trans ?_
  rw [mem_claims_iff_of_slots h.eq_of_slot, List.mem_map]
  constructor
  · rintro ⟨rfl, hmem, -⟩
    exact ⟨row, hmem, rfl⟩
  · rintro ⟨other, hmem, heq⟩
    obtain ⟨rfl, rfl⟩ := Prod.mk.inj heq
    exact ⟨rfl, hmem, rfl⟩

end RoleIndex

end GradedAccess
