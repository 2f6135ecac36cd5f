import GradedAccess.LadderIndex
import GradedAccess.Proofs.Roles.Change
import GradedAccess.Proofs.Sizes

/-!
# Ladders show the slots

A `LadderIndex` and a `RoleIndex` that undergo the same changes can be read in the same ways with
the same results.  `Shows` is the relation between the two: they have the same roles, each rung has
what is in its slot, and no ladder is empty.  The last part (`Trim`) is what the stored form adds.
Clearing a rung breaks it for the job of that rung, and only there (`Trim.clearRung`); dropping that
job if its ladder is empty mends it (`TrimBeyond.dropEmpty`).

Every operation keeps `Shows` and counts the same on both sides.  By induction it holds after any
history (`shows_history`), whatever the rows of its changes.  What is known of the slots is then
known of the rungs, and the jobs that are listed are those with a role (`ladders_of_history`).
-/

namespace GradedAccess

open Std (ExtTreeMap ExtTreeSet LawfulEqOrd)

/-- What every step of two folds keeps, the folds keep. -/
theorem foldl_keeps {σ τ α : Type} {r : σ → τ → Prop} {f : σ → α → σ} {g : τ → α → τ}
    (hstep : ∀ s t a, r s t → r (f s a) (g t a)) {s : σ} {t : τ} (h : r s t) (as : List α) :
    r (as.foldl f s) (as.foldl g t) := by
  induction as generalizing s t with
  | nil => exact h
  | cons a as ih => exact ih (hstep s t a h)

namespace LadderIndex

variable {index : LadderIndex} {flat : RoleIndex} {rows : List Role} {row : Role}
variable {job job' : String} {grade : Grade} {rungs : ExtTreeMap Grade RoleId}
variable {changes : List RoleIndex.Change}

/-! ## Ladders and rungs -/

/-- What is on a rung is what the ladder has there. -/
theorem roleId_eq (index : LadderIndex) (job : String) (grade : Grade) :
    index.roleId job grade = (index.ladder job)[grade]? := by
  rw [roleId, ladder]
  cases index.ladders[job]? <;> simp

theorem ladder_insert (index : LadderIndex) (job' : String) (rungs : ExtTreeMap Grade RoleId)
    (job : String) :
    ladder { index with ladders := index.ladders.insert job' rungs } job =
      if job = job' then rungs else index.ladder job := by
  by_cases h : job = job'
  · rw [if_pos h, h, ladder, ExtTreeMap.getElem?_insert_self, Option.getD_some]
  · rw [if_neg h, ladder, getElem?_insert_of_ne _ _ h, ladder]

theorem ladder_erase (index : LadderIndex) (job' job : String) :
    ladder { index with ladders := index.ladders.erase job' } job =
      if job = job' then ∅ else index.ladder job := by
  by_cases h : job = job'
  · rw [if_pos h, h, ladder, ExtTreeMap.getElem?_erase_self, Option.getD_none]
  · rw [if_neg h, ladder, getElem?_erase_of_ne _ h, ladder]

/-- Dropping a job whose ladder is empty changes no ladder. -/
@[simp] theorem ladder_dropEmpty (index : LadderIndex) (job' job : String) :
    (index.dropEmpty job').ladder job = index.ladder job := by
  rw [dropEmpty]
  split
  · next hempty =>
    rw [ladder_erase]
    split
    · next h => rw [h, ExtTreeMap.isEmpty_iff.mp hempty]
    · rfl
  · rfl

theorem ladder_setLadder (index : LadderIndex) (job' : String) (rungs : ExtTreeMap Grade RoleId)
    (job : String) :
    (index.setLadder job' rungs).ladder job = if job = job' then rungs else index.ladder job := by
  rw [setLadder]
  split
  · next hempty => rw [ladder_erase, ExtTreeMap.isEmpty_iff.mp hempty]
  · rw [ladder_insert]

/-- Clearing a rung leaves the ladders of other jobs as they are. -/
theorem ladder_clearRung_of_ne (index : LadderIndex) {row : Role} {job : String}
    (hne : job ≠ row.job) : (index.clearRung row).ladder job = index.ladder job := by
  rw [ladder, clearRung, ExtTreeMap.getElem?_modify, if_neg, ladder]
  rwa [LawfulEqOrd.compare_eq_iff_eq, eq_comm]

/-- A rung is cleared if its role is the one that a row names, and the others stay. -/
theorem roleId_clearRung (index : LadderIndex) (row : Role) (job : String) (grade : Grade) :
    (index.clearRung row).roleId job grade =
      if job = row.job ∧ grade = row.grade ∧ index.roleId job grade = some row.id then none
      else index.roleId job grade := by
  by_cases hjob : job = row.job
  swap
  · rw [if_neg fun h => hjob h.1, roleId_eq, ladder_clearRung_of_ne index hjob, roleId_eq]
  subst hjob
  rw [roleId, clearRung, ExtTreeMap.getElem?_modify_self, roleId]
  cases index.ladders[row.job]? with
  | none => simp
  | some ladder =>
    rw [Option.map_some, Option.bind_some, Option.bind_some]
    by_cases hgrade : grade = row.grade
    · subst hgrade
      split <;> simp_all
    · rw [if_neg (not_and_of_not_right _ fun h => hgrade h.1)]
      split
      · rw [getElem?_erase_of_ne _ hgrade]
      · rfl

/-- Unlinking a role clears the rung it has, and no other. -/
theorem roleId_unlink (index : LadderIndex) (row : Role) (job : String) (grade : Grade) :
    (index.unlink row).roleId job grade =
      if job = row.job ∧ grade = row.grade ∧ index.roleId job grade = some row.id then none
      else index.roleId job grade := by
  rw [← roleId_clearRung, unlink, roleId_eq, ladder_dropEmpty, roleId_eq]

@[simp] theorem roles_unlink (index : LadderIndex) (row : Role) :
    (index.unlink row).roles = index.roles := by
  rw [unlink, dropEmpty]
  split <;> rfl

/-! ## No empty ladders -/

/-- Whether no ladder is empty, the one of a job apart. -/
def TrimBeyond (job : String) (index : LadderIndex) : Prop :=
  ∀ job' ∈ index.ladders, job' ≠ job → index.ladder job' ≠ ∅

/-- Whether no ladder is empty. -/
def Trim (index : LadderIndex) : Prop := ∀ job ∈ index.ladders, index.ladder job ≠ ∅

theorem Trim.beyond (h : index.Trim) (job : String) : TrimBeyond job index :=
  fun job' hmem _ => h job' hmem

/-- Only the ladder a role leaves can become empty. -/
theorem Trim.clearRung (h : index.Trim) (row : Role) :
    TrimBeyond row.job (index.clearRung row) := by
  intro job hmem hne
  rw [ladder_clearRung_of_ne index hne]
  exact h job (ExtTreeMap.mem_modify.mp hmem)

/-- A job that is dropped has no empty ladder any more. -/
theorem TrimBeyond.erase (h : TrimBeyond job index) :
    Trim { index with ladders := index.ladders.erase job } := by
  intro job' hmem
  obtain ⟨hne, hmem⟩ := ExtTreeMap.mem_erase.mp hmem
  rw [ne_eq, LawfulEqOrd.compare_eq_iff_eq] at hne
  rw [ladder_erase, if_neg (Ne.symm hne)]
  exact h job' hmem (Ne.symm hne)

/-- If its ladder was empty it is dropped, and if not there is nothing to mend. -/
theorem TrimBeyond.dropEmpty (h : TrimBeyond job index) : (index.dropEmpty job).Trim := by
  rw [LadderIndex.dropEmpty]
  split
  · exact h.erase
  · next hkept =>
    intro job' hmem
    by_cases hjob : job' = job
    · rwa [hjob, ne_eq, ← ExtTreeMap.isEmpty_iff]
    · exact h job' hmem hjob

theorem Trim.unlink (h : index.Trim) (row : Role) : (index.unlink row).Trim :=
  (h.clearRung row).dropEmpty

theorem TrimBeyond.insert (h : TrimBeyond job index) (hrungs : rungs ≠ ∅) :
    Trim { index with ladders := index.ladders.insert job rungs } := by
  intro job' hmem
  rw [ladder_insert]
  split
  · exact hrungs
  · next hne => exact h job' ((mem_insert_cases hmem).resolve_left hne) hne

theorem Trim.setLadder (h : index.Trim) (job : String) (rungs : ExtTreeMap Grade RoleId) :
    (index.setLadder job rungs).Trim := by
  rw [LadderIndex.setLadder]
  split
  · exact (h.beyond job).erase
  · next hrungs =>
    rw [ExtTreeMap.isEmpty_iff] at hrungs
    exact (h.beyond job).insert hrungs

/-! ## The slots that the ladders show -/

/-- Whether an index with ladders has the roles of an index with slots, and shows on its rungs what
is in the slots. -/
structure Shows (index : LadderIndex) (flat : RoleIndex) : Prop where
  roles : index.roles = flat.roles
  roleId : ∀ job grade, index.roleId job grade = flat.roleId job grade
  trim : index.Trim

namespace Shows

theorem empty : Shows {} {} where
  roles := rfl
  roleId job grade := by simp [LadderIndex.roleId, RoleIndex.roleId]
  trim job hmem := absurd hmem ExtTreeMap.not_mem_empty

theorem role_eq (h : Shows index flat) (id : RoleId) : index.role id = flat.role id := by
  rw [LadderIndex.role, h.roles, RoleIndex.role]

theorem jobOf_eq (h : Shows index flat) (id : RoleId) : index.jobOf id = flat.jobOf id := by
  rw [LadderIndex.jobOf, h.role_eq, RoleIndex.jobOf]

/-- A ladder has what is in the slots of its job, in the same order. -/
theorem toList_ladder (h : Shows index flat) (job : String) :
    (index.ladder job).toList = flat.slots.row job := by
  refine eq_of_ascending_keys ExtTreeMap.ordered_keys_toList (PairTable.pairwise_row _ job) ?_
  rintro ⟨grade, id⟩
  rw [ExtTreeMap.mem_toList_iff_getElem?_eq_some, PairTable.mem_row_iff, ← roleId_eq, h.roleId]
  rfl

theorem values_ladder (h : Shows index flat) (job : String) :
    (index.ladder job).values = flat.jobRoles job := by
  rw [values_eq_map_toList, h.toList_ladder, RoleIndex.jobRoles]

theorem chain_eq (h : Shows index flat) (job : String) (grade : Grade) :
    index.chain job grade = flat.chain job grade := by
  rw [LadderIndex.chain, h.toList_ladder, RoleIndex.chain]

/-- Every grade is at most the greatest one, so the roles of a job are all that are on its
ladder. -/
theorem jobRoles_eq (h : Shows index flat) (job : String) :
    index.jobRoles job = flat.jobRoles job := by
  have hall : ∀ rung ∈ flat.slots.row job,
      (if rung.1 ≤ Int32.maxValue then some rung.2 else none) = some rung.2 := by
    intro rung _
    rw [if_pos (Int32.le_maxValue rung.1)]
  rw [LadderIndex.jobRoles, h.chain_eq, RoleIndex.chain, List.filterMap_congr hall,
    List.filterMap_eq_map', RoleIndex.jobRoles]

/-- The jobs that have a ladder are those with a role in a slot, because no ladder is empty. -/
theorem jobs_eq (h : Shows index flat) : index.jobs = flat.jobs := by
  have hascending : flat.jobs.Pairwise fun a b => compare a b = .lt := by
    rw [RoleIndex.jobs, PairTable.firsts]
    exact ExtTreeSet.ordered_toList
  refine eq_of_ascending ExtTreeMap.ordered_keys hascending fun job => ?_
  refine Iff.trans ?_ RoleIndex.mem_jobs_iff.symm
  rw [LadderIndex.jobs, ExtTreeMap.mem_keys]
  constructor
  · intro hmem
    -- a ladder that is not empty has a rung, and the rung shows a slot
    have hrung := h.trim job hmem
    rw [ne_eq, ExtTreeMap.eq_empty_iff_forall_not_mem, not_forall] at hrung
    obtain ⟨grade, hgrade⟩ := hrung
    obtain ⟨id, hid⟩ := mem_iff_exists.mp (not_not.mp hgrade)
    exact ⟨grade, id, by rw [← h.roleId, roleId_eq, hid]⟩
  · rintro ⟨grade, id, hid⟩
    rw [← h.roleId, LadderIndex.roleId] at hid
    obtain ⟨ladder, hladder, -⟩ := Option.bind_eq_some_iff.mp hid
    exact mem_iff_exists.mpr ⟨ladder, hladder⟩

/-! ## One step on both sides -/

/-- What the ladders show does not depend on the roles. -/
theorem withRoles (h : Shows index flat) (roles : ExtTreeMap RoleId Role) :
    Shows { index with roles := roles } { flat with roles := roles } where
  roles := rfl
  roleId := h.roleId
  trim := h.trim

theorem unlink (h : Shows index flat) (row : Role) :
    Shows (index.unlink row) (flat.unlink row) where
  roles := by
    rw [roles_unlink, h.roles, RoleIndex.unlink]
    split <;> rfl
  roleId job grade := by rw [roleId_unlink, RoleIndex.roleId_unlink, h.roleId]
  trim := h.trim.unlink row

theorem unlinkMoved (h : Shows index flat) (earlier : Option Role) (moved : Role → Bool) :
    Shows (index.unlinkMoved earlier moved) (flat.unlinkMoved earlier moved) := by
  cases earlier with
  | none => exact h
  | some row =>
    rw [LadderIndex.unlinkMoved, RoleIndex.unlinkMoved]
    split
    · exact h.unlink row
    · exact h

theorem insert (h : Shows index flat) (row : Role) :
    Shows
      { index with ladders :=
          index.ladders.insert row.job ((index.ladder row.job).insert row.grade row.id) }
      { flat with slots := flat.slots.insert (row.job, row.grade) row.id } where
  roles := h.roles
  roleId job grade := by
    rw [RoleIndex.roleId_insert, roleId_eq, ladder_insert]
    by_cases hjob : job = row.job
    · subst hjob
      rw [if_pos rfl, ExtTreeMap.getElem?_insert, ← roleId_eq, h.roleId]
      simp only [LawfulEqOrd.compare_eq_iff_eq, true_and, @eq_comm _ row.grade]
    · rw [if_neg hjob, if_neg fun hown => hjob hown.1, ← roleId_eq, h.roleId]
  trim := (h.trim.beyond row.job).insert ExtTreeMap.insert_ne_empty

theorem upsert (h : Shows index flat) (row : Role) :
    Shows (index.upsert row) (flat.upsert row) := by
  rw [LadderIndex.upsert, RoleIndex.upsert, h.role_eq, h.roles]
  exact ((h.withRoles _).unlinkMoved _ _).insert row

theorem remove (h : Shows index flat) (id : RoleId) :
    Shows (index.remove id) (flat.remove id) := by
  rw [LadderIndex.remove, RoleIndex.remove, h.role_eq, h.roles]
  cases flat.role id with
  | some row => exact (h.withRoles _).unlink row
  | none => exact h

theorem hold (h : Shows index flat) (job : String) (row : Role) :
    Shows (hold job index row) (RoleIndex.hold job flat row) := by
  rw [LadderIndex.hold, RoleIndex.hold, h.role_eq, h.roles]
  exact (h.withRoles _).unlinkMoved _ _

/-- The ladder a job is given shows the slots it is given. -/
theorem setLadder (h : Shows index flat) (job : String) (rows : List Role) :
    Shows (index.setLadder job (RoleIndex.lowest (rows.filter (·.job = job))))
      (flat.setSlots job rows) where
  roles := h.roles
  roleId job' grade := by
    rw [RoleIndex.roleId_setSlots, roleId_eq, ladder_setLadder]
    split
    · rfl
    · rw [← roleId_eq, h.roleId]
  trim := h.trim.setLadder job _

/-! ## Replacements on both sides -/

/-- Whether two indexes that are being changed agree, in what was counted too. -/
structure Agree (state : LadderIndex × Tally) (state' : RoleIndex × Tally) : Prop where
  shown : Shows state.1 state'.1
  counted : state.2 = state'.2

theorem dropFrom {state : LadderIndex × Tally} {state' : RoleIndex × Tally}
    (h : Agree state state') (job : String) (id : RoleId) :
    Agree (LadderIndex.dropFrom job state id) (RoleIndex.dropFrom job state' id) := by
  obtain ⟨hshows, htally⟩ := h
  rw [LadderIndex.dropFrom, RoleIndex.dropFrom, hshows.jobOf_eq, hshows.roles, htally]
  split
  · exact ⟨hshows.withRoles _, rfl⟩
  · exact ⟨hshows, htally⟩

theorem replaceJob (h : Shows index flat) (job : String) (rows : List Role) :
    Agree (index.replaceJob job rows) (flat.replaceJob job rows) := by
  have hheld : Shows ((RoleIndex.claims job rows).foldl (LadderIndex.hold job) index)
      ((RoleIndex.claims job rows).foldl (RoleIndex.hold job) flat) := by
    exact foldl_keeps (fun _ _ row h => h.hold job row) h _
  rw [LadderIndex.replaceJob, RoleIndex.replaceJob, hheld.values_ladder]
  refine foldl_keeps (r := Agree) (fun _ _ id h => dropFrom h job id) ?_ _
  exact ⟨hheld.setLadder job rows, rfl⟩

theorem replaceJobs (h : Shows index flat) (jobs : List String) (rows : List Role) :
    Agree (index.replaceJobs jobs rows) (flat.replaceJobs jobs rows) := by
  refine foldl_keeps (fun state state' job hagree => ?_) ⟨h, rfl⟩ jobs
  have hreplaced := hagree.shown.replaceJob job rows
  exact ⟨hreplaced.shown, congrArg₂ (· + ·) hagree.counted hreplaced.counted⟩

/-- The same roles are displaced, as long as roles are filed under their own numbers. -/
theorem displaced_eq (h : Shows index flat) (hfiled : flat.Filed) :
    index.displaced = flat.displaced := by
  rw [LadderIndex.displaced, RoleIndex.displaced, values_eq_map_toList, List.filterMap_map, h.roles]
  refine List.filterMap_congr fun entry hmem => ?_
  have hrow : flat.role entry.1 = some entry.2 :=
    ExtTreeMap.mem_toList_iff_getElem?_eq_some.mp hmem
  rw [Function.comp_apply, h.roleId, hfiled _ _ hrow]

theorem replaceAllIn (h : Shows index flat) (hfiled : flat.Filed) (gone named : List String)
    (rows : List Role) :
    Agree (index.replaceAllIn gone named rows) (flat.replaceAllIn gone named rows) := by
  obtain ⟨hemptied, hgone⟩ := h.replaceJobs gone []
  obtain ⟨hfilled, hnamed⟩ := hemptied.replaceJobs named rows
  have horphans := hfilled.displaced_eq ((hfiled.replaceJobs gone []).replaceJobs named rows)
  rw [LadderIndex.replaceAllIn, RoleIndex.replaceAllIn]
  dsimp only
  rw [horphans, hfilled.roles, hgone, hnamed]
  exact ⟨hfilled.withRoles _, rfl⟩

end Shows

/-! ## Histories -/

/-- The index after a change. -/
def apply (index : LadderIndex) : RoleIndex.Change → LadderIndex
  | .upsert row => index.upsert row
  | .remove id => index.remove id
  | .replaceJob job rows => (index.replaceJob job rows).1
  | .replaceAll visit rows =>
    let named := (ExtTreeSet.ofList (rows.map (·.job))).toList
    let gone := index.jobs.filter fun job => !named.contains job
    (index.replaceAllIn (visit gone) (visit named) rows).1

/-- The index after some changes, one after another. -/
def after (index : LadderIndex) (changes : List RoleIndex.Change) : LadderIndex :=
  changes.foldl apply index

/-- Every change leaves on the rungs what it leaves in the slots. -/
theorem Shows.apply (h : Shows index flat) (hfiled : flat.Filed) (change : RoleIndex.Change) :
    Shows (index.apply change) (flat.apply change) := by
  cases change with
  | upsert row => exact h.upsert row
  | remove id => exact h.remove id
  | replaceJob job rows => exact (h.replaceJob job rows).shown
  | replaceAll visit rows =>
    rw [LadderIndex.apply, RoleIndex.apply, h.jobs_eq]
    exact (h.replaceAllIn hfiled _ _ rows).shown

/-- Whatever has happened, the rungs show what is in the slots. -/
theorem shows_history (changes : List RoleIndex.Change) :
    Shows (after {} changes) (RoleIndex.after {} changes) := by
  induction changes using List.reverseRecOn with
  | nil => exact Shows.empty
  | append_singleton changes last ih =>
    have hconcat : after {} (changes ++ [last]) = (after {} changes).apply last := by
      rw [after, List.foldl_append]
      rfl
    rw [hconcat, RoleIndex.after_concat]
    exact ih.apply (RoleIndex.sound_empty.filed.after changes) last

/-- Whatever has happened, every lookup finds on the ladders what is found in the slots. -/
theorem lookups_history (changes : List RoleIndex.Change) :
    let index := after {} changes
    let flat := RoleIndex.after {} changes
    index.role = flat.role ∧ index.roleId = flat.roleId ∧ index.jobOf = flat.jobOf ∧
      index.chain = flat.chain ∧ index.jobRoles = flat.jobRoles ∧ index.jobs = flat.jobs ∧
      index.size = flat.size := by
  intro index flat
  have h : Shows index flat := shows_history changes
  exact ⟨funext h.role_eq, funext₂ h.roleId, funext h.jobOf_eq, funext₂ h.chain_eq,
    funext h.jobRoles_eq, h.jobs_eq, congrArg ExtTreeMap.size h.roles⟩

/-- **The ladders of an index that has a history.**  Every rung leads to the role that has its job
and its grade.  The jobs are those with a role on a rung, each once: no job stays listed when its
last role is gone.  A chain ascends by grade, has no role twice, and holds the roles on the rungs of
its job up to its grade. -/
theorem ladders_of_history (hproper : ∀ change ∈ changes, change.Proper) :
    let index := after {} changes
    (∀ job grade id, index.roleId job grade = some id → index.role id = some ⟨id, job, grade⟩) ∧
    (index.jobs.Nodup ∧
      ∀ job, job ∈ index.jobs ↔ ∃ grade id, index.roleId job grade = some id) ∧
    ∀ job grade,
      ((index.chain job grade).Pairwise fun a b => ∃ low high : Grade, low < high ∧
        index.role a = some ⟨a, job, low⟩ ∧ index.role b = some ⟨b, job, high⟩) ∧
      (index.chain job grade).Nodup ∧
      ∀ id, id ∈ index.chain job grade ↔
        ∃ own ≤ grade, index.roleId job own = some id ∧ index.role id = some ⟨id, job, own⟩ := by
  intro index
  have h : Shows index (RoleIndex.after {} changes) := shows_history changes
  obtain ⟨hplaced, hjobs, hchain⟩ := RoleIndex.slots_of_history hproper
  simp only [h.role_eq, h.roleId, h.chain_eq, h.jobs_eq]
  exact ⟨hplaced, hjobs, hchain⟩

/-- Two officers of the police.  One of them is then listed for the ambulance, where a row of the
police and a second row for the same grade are listed as well, all roles are replaced, and at last
the officer who has come to the department of justice goes back to the police. -/
def transfers : List RoleIndex.Change :=
  [.upsert ⟨⟨1⟩, "police", 3⟩, .upsert ⟨⟨2⟩, "police", 1⟩,
    .replaceJob "ambulance" [⟨⟨4⟩, "ambulance", 2⟩, ⟨⟨1⟩, "ambulance", 2⟩, ⟨⟨3⟩, "police", 1⟩],
    .remove ⟨4⟩,
    .replaceAll List.reverse
      [⟨⟨5⟩, "police", 7⟩, ⟨⟨2⟩, "police", 4⟩, ⟨⟨1⟩, "doj", 2⟩, ⟨⟨6⟩, "police", 7⟩],
    .upsert ⟨⟨1⟩, "police", 1⟩]

/-- The replacement empties the ambulance, and the last transfer the department of justice.  Neither
is listed then, and the officers are found on their new rungs. -/
theorem ladders_of_transfers :
    (∀ change ∈ transfers, change.Proper) ∧
      (after {} (transfers.take 4)).jobs = ["ambulance", "police"] ∧
      (after {} (transfers.take 5)).jobs = ["doj", "police"] ∧
      (after {} transfers).jobs = ["police"] ∧
      (after {} transfers).chain "police" 6 = [⟨1⟩, ⟨2⟩] ∧
      (after {} transfers).role ⟨1⟩ = some ⟨⟨1⟩, "police", 1⟩ := by
  have hproper : ∀ change ∈ transfers, change.Proper := by
    simp only [transfers, List.forall_mem_cons, RoleIndex.Change.Proper]
    exact ⟨trivial, trivial, by decide, trivial, ⟨by decide, List.reverse_perm⟩, trivial,
      List.forall_mem_nil _⟩
  refine ⟨hproper, by decide +kernel, by decide +kernel, by decide +kernel, by decide +kernel, ?_⟩
  exact (ladders_of_history hproper).1 "police" 1 ⟨1⟩ (by decide +kernel)

end LadderIndex

end GradedAccess
