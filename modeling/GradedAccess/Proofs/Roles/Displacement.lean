import GradedAccess.Proofs.EachAfter
import GradedAccess.Proofs.Roles.Change

/-!
# Displaced roles

A role that is put into a slot which another role has takes the slot over.  The other role stays
cached, and no slot leads to it any more: it is displaced.  So several cached roles may have one
job and one grade, although only the last of them is ever found by these.

`mem_displaced_after_iff` says which roles these are.  A role is displaced exactly if its slot was
taken over at some time of the history and it has not been settled since.  What settles a role is
to be put into a slot again, alone or with its job, to be dropped by its number, or a replacement
of all roles.  Replacing the job it belongs to does not settle it, unless the job has a claim of
its number: only the roles in the slots of the job are looked at.

Everything else is in its slot, so there are as many cached roles as there are slots with a role
and displaced roles together (`size_eq`).
-/

namespace GradedAccess

open Std (ExtTreeMap)

namespace RoleIndex

variable {index : RoleIndex} {change : Change} {changes : List Change} {rows : List Role}
variable {row : Role} {job : String} {id : RoleId}

/-- Whether a change puts a role into a slot or drops it, or drops all roles without a slot. -/
def Change.Settles (id : RoleId) : Change → Prop
  | .upsert row => row.id = id
  | .remove dropped => dropped = id
  | .replaceJob job rows => ∃ row ∈ claims job rows, row.id = id
  | .replaceAll .. => True

/-- Whether a change puts another role into the slot a role has. -/
def TakesOver (index : RoleIndex) (id : RoleId) (change : Change) : Prop :=
  ∃ row, change = .upsert row ∧ index.roleId row.job row.grade = some id ∧ row.id ≠ id

/-! ## What a change displaces -/

/-- A role that is cached and not displaced is in its slot. -/
theorem roleId_of_not_displaced (hrole : index.role id = some row) (hnot : id ∉ index.displaced) :
    index.roleId row.job row.grade = some id := by
  by_contra hslot
  exact hnot (mem_displaced_iff.mpr ⟨row, hrole, hslot⟩)

/-- In a sound index a displaced role is in no slot at all. -/
theorem Placed.not_slot_of_displaced (h : index.Placed) (hmem : id ∈ index.displaced)
    (job : String) (grade : Grade) : index.roleId job grade ≠ some id := by
  intro hslot
  obtain ⟨row, hrole, hnot⟩ := mem_displaced_iff.mp hmem
  obtain ⟨rfl, rfl⟩ := h.slot_of_role hslot hrole
  exact hnot hslot

/-- Putting a role into the index displaces whoever has its slot, and settles the role. -/
theorem mem_displaced_upsert_iff (h : index.Sound) :
    id ∈ (index.upsert row).displaced ↔
      row.id ≠ id ∧ (id ∈ index.displaced ∨ index.roleId row.job row.grade = some id) := by
  simp only [mem_displaced_iff, role_upsert, roleId_upsert_of_placed h.filed h.placed]
  by_cases hid : id = row.id
  · subst hid
    simp
  · rw [if_neg hid, and_iff_right (Ne.symm hid)]
    constructor
    · rintro ⟨found, hrole, hslot⟩
      by_cases hown : index.roleId found.job found.grade = some id
      · right
        have hsame : found.job = row.job ∧ found.grade = row.grade := by
          by_contra hother
          rw [if_neg hother, hown, if_neg (by simpa using hid)] at hslot
          exact hslot rfl
        rw [← hsame.1, ← hsame.2, hown]
      · exact Or.inl ⟨found, hrole, hown⟩
    · rintro (⟨found, hrole, hslot⟩ | hslot)
      · refine ⟨found, hrole, ?_⟩
        split
        · simpa using Ne.symm hid
        · split
          · nofun
          · exact hslot
      · refine ⟨_, h.placed hslot, ?_⟩
        rw [if_pos ⟨rfl, rfl⟩]
        simpa using Ne.symm hid

/-- Dropping a role displaces nobody. -/
theorem mem_displaced_remove_iff (h : index.Sound) {dropped : RoleId} :
    id ∈ (index.remove dropped).displaced ↔ dropped ≠ id ∧ id ∈ index.displaced := by
  simp only [mem_displaced_iff, role_remove, roleId_remove h.filed h.placed]
  by_cases hid : id = dropped
  · subst hid
    simp
  · have hslot : ∀ found : Option RoleId,
        (if found = some dropped then none else found) ≠ some id ↔ found ≠ some id := by
      intro found
      split
      · next heq => simpa [heq] using Ne.symm hid
      · rfl
    simp only [if_neg hid, hslot, and_iff_right (Ne.symm hid : dropped ≠ id)]

/-- Replacing a job displaces nobody, and settles nobody but its claims. -/
theorem mem_displaced_replaceJob_iff (h : index.Sound)
    (hdistinct : rows.Pairwise fun a b => a.id ≠ b.id) :
    id ∈ (index.replaceJob job rows).1.displaced ↔
      (∀ row ∈ claims job rows, row.id ≠ id) ∧ id ∈ index.displaced := by
  by_cases hclaim : ∃ row ∈ claims job rows, row.id = id
  · obtain ⟨row, hclaim, rfl⟩ := hclaim
    obtain ⟨-, hjob, hlow⟩ := mem_claims_iff.mp hclaim
    have hrole : (index.replaceJob job rows).1.role row.id = some row :=
      role_replaceJob_of_claim hdistinct hclaim
    refine iff_of_false (fun hmem => ?_) fun hnot => hnot.1 row hclaim rfl
    obtain ⟨found, hfound, hslot⟩ := mem_displaced_iff.mp hmem
    rw [hrole, Option.some.injEq] at hfound
    subst hfound
    rw [hjob] at hslot
    exact hslot (roleId_replaceJob_self.mpr hlow)
  · rw [not_exists] at hclaim
    have hnone : ∀ row ∈ claims job rows, row.id ≠ id := fun row hmem hid =>
      hclaim row ⟨hmem, hid⟩
    rw [and_iff_right hnone]
    have hrole : (index.replaceJob job rows).1.role id =
        if id ∈ index.jobRoles job ∧ index.jobOf id = some job then none else index.role id :=
      role_replaceJob_of_ne hdistinct hnone
    constructor
    · intro hmem
      obtain ⟨found, hfound, hslot⟩ := mem_displaced_iff.mp hmem
      rw [hrole, Option.ite_none_left_eq_some] at hfound
      refine mem_displaced_iff.mpr ⟨found, hfound.2, fun hbefore => ?_⟩
      by_cases hjob : found.job = job
      · subst hjob
        refine hfound.1 ⟨mem_jobRoles_iff.mpr ⟨found.grade, hbefore⟩, ?_⟩
        rw [jobOf, hfound.2, Option.map_some]
      · exact hslot (roleId_replaceJob_of_ne h.filed hjob hbefore hnone)
    · intro hmem
      obtain ⟨found, hfound, -⟩ := mem_displaced_iff.mp hmem
      have hslots := h.placed.not_slot_of_displaced hmem
      refine mem_displaced_iff.mpr ⟨found, ?_, fun hslot => ?_⟩
      · rw [hrole, if_neg, hfound]
        rintro ⟨hown, -⟩
        obtain ⟨grade, hslot⟩ := mem_jobRoles_iff.mp hown
        exact hslots job grade hslot
      · by_cases hjob : found.job = job
        · rw [hjob] at hslot
          exact hnone _ (roleId_replaceJob_self.mp hslot).exists_claim rfl
        · exact hslots _ _ (roleId_of_replaceJob hjob hslot)

/-- **What a change displaces.**  After a change those roles are displaced that were displaced
before and are not settled, and the role whose slot is taken over. -/
theorem mem_displaced_apply_iff (h : index.Sound) (hproper : change.Proper) :
    id ∈ (index.apply change).displaced ↔
      index.TakesOver id change ∨ id ∈ index.displaced ∧ ¬change.Settles id := by
  cases change with
  | upsert row =>
    have htakes : index.TakesOver id (.upsert row) ↔
        index.roleId row.job row.grade = some id ∧ row.id ≠ id := by
      constructor
      · rintro ⟨_, ⟨⟩, htaken⟩
        exact htaken
      · intro htaken
        exact ⟨row, rfl, htaken⟩
    rw [apply, mem_displaced_upsert_iff h, htakes, Change.Settles]
    tauto
  | remove dropped =>
    have htakes : ¬index.TakesOver id (.remove dropped) := by
      rintro ⟨_, ⟨⟩, -⟩
    rw [apply, mem_displaced_remove_iff h, or_iff_right htakes, Change.Settles, and_comm]
  | replaceJob job rows =>
    have htakes : ¬index.TakesOver id (.replaceJob job rows) := by
      rintro ⟨_, ⟨⟩, -⟩
    rw [apply, mem_displaced_replaceJob_iff h hproper, or_iff_right htakes, Change.Settles,
      and_comm]
    simp only [not_exists, not_and, ne_eq]
  | replaceAll visit rows =>
    refine iff_of_false (fun hmem => ?_) ?_
    · obtain ⟨row, hrole, hslot⟩ := mem_displaced_iff.mp hmem
      exact hslot (roleId_of_role_replaceAllIn hproper.1 h.filed
        (fun _ => mem_visit_named_iff hproper.2) (fun _ => mem_visit_gone hproper.2) hrole)
    · rintro (⟨_, ⟨⟩, -⟩ | ⟨-, hnot⟩)
      exact hnot trivial

/-! ## What a history displaces -/

/-- Whether a history leaves a role displaced: at some time its slot was taken over, and nothing
has settled it since. -/
def LeftDisplaced (changes : List Change) (id : RoleId) : Prop :=
  ∃ earlier taking later, changes = earlier ++ taking :: later ∧
    (after {} earlier).TakesOver id taking ∧ ∀ change ∈ later, ¬change.Settles id

/-- One more change leaves a role displaced if it takes over its slot, or if the role was left
displaced before and is not settled. -/
theorem leftDisplaced_concat_iff (changes : List Change) (last : Change) (id : RoleId) :
    LeftDisplaced (changes ++ [last]) id ↔
      (after {} changes).TakesOver id last ∨ LeftDisplaced changes id ∧ ¬last.Settles id :=
  someSince_concat_iff

/-- The displaced roles of an index are those its history has left displaced. -/
theorem mem_displaced_after_iff (hproper : ∀ change ∈ changes, change.Proper) :
    id ∈ (after {} changes).displaced ↔ LeftDisplaced changes id := by
  induction changes using List.reverseRecOn with
  | nil =>
    refine iff_of_false (fun hmem => ?_) ?_
    · obtain ⟨row, hrole, -⟩ := mem_displaced_iff.mp hmem
      simp [role] at hrole
    · rintro ⟨earlier, taking, later, hsplit, -⟩
      simp at hsplit
  | append_singleton changes last ih =>
    rw [List.forall_mem_append] at hproper
    have hlast := hproper.2 last (List.mem_singleton_self last)
    rw [after_concat, mem_displaced_apply_iff (sound_empty.after hproper.1) hlast, ih hproper.1,
      leftDisplaced_concat_iff]

/-! ## How many roles are cached -/

/-- Whether an entry of the cached roles is in its slot. -/
def inSlot (index : RoleIndex) (entry : RoleId × Role) : Bool :=
  index.roleId entry.2.job entry.2.grade = some entry.1

/-- The roles in slots are those the slots lead to. -/
theorem map_filter_inSlot_perm (h : index.Placed) :
    ((index.roles.toList.filter index.inSlot).map (·.1)).Perm (index.slots.toList.map (·.2)) := by
  have hroles : ((index.roles.toList.filter index.inSlot).map (·.1)).Nodup :=
    List.pairwise_map.mpr ((PairTable.distinct_toList index.roles).filter _)
  have hslots : (index.slots.toList.map (·.2)).Nodup := by
    refine List.pairwise_map.mpr ((PairTable.distinct_toList index.slots).imp_of_mem ?_)
    intro entry entry' hmem hmem' hne heq
    rw [ExtTreeMap.mem_toList_iff_getElem?_eq_some] at hmem hmem'
    rw [← heq] at hmem'
    exact hne (Prod.ext_iff.mpr (h.slot_unique hmem hmem'))
  refine (List.perm_ext_iff_of_nodup hroles hslots).mpr fun id => ?_
  simp only [List.mem_map, List.mem_filter, Prod.exists, exists_and_right, exists_eq_right,
    ExtTreeMap.mem_toList_iff_getElem?_eq_some, inSlot, decide_eq_true_eq]
  constructor
  · rintro ⟨row, -, hslot⟩
    exact ⟨row.job, row.grade, hslot⟩
  · rintro ⟨job, grade, hslot⟩
    exact ⟨_, h hslot, hslot⟩

/-- The displaced roles are those cached roles that are not in their slots. -/
theorem displaced_eq (index : RoleIndex) :
    index.displaced = (index.roles.toList.filter fun entry => !index.inSlot entry).map (·.1) := by
  rw [displaced]
  induction index.roles.toList with
  | nil => rfl
  | cons entry entries ih =>
    rw [List.filterMap_cons, List.filter_cons, ih]
    by_cases hslot : index.roleId entry.2.job entry.2.grade = some entry.1 <;>
      simp [inSlot, hslot]

theorem nodup_displaced (index : RoleIndex) : index.displaced.Nodup := by
  rw [displaced_eq]
  exact List.pairwise_map.mpr ((PairTable.distinct_toList index.roles).filter _)

/-- A cached role is in its slot or displaced. -/
theorem size_eq (h : index.Placed) :
    index.size = index.slots.size + index.displaced.length := by
  have hslots := (map_filter_inSlot_perm h).length_eq
  rw [List.length_map, List.length_map, ExtTreeMap.length_toList] at hslots
  have hparts := List.length_eq_length_filter_add (l := index.roles.toList) index.inSlot
  rw [ExtTreeMap.length_toList, hslots] at hparts
  rw [displaced_eq, List.length_map]
  exact hparts

/-- **Cached roles and their slots.**  Whatever has been done to an index, a cached role is in its
slot unless the slot was taken over and nothing has settled the role since.  There are just as many
cached roles beside those in slots as there are such roles.  So if no role is left displaced, two
cached roles never have one job and one grade, and there are as many roles as slots. -/
theorem roleId_of_history (hproper : ∀ change ∈ changes, change.Proper) :
    let index := after {} changes
    (∀ id row, index.role id = some row →
      (index.roleId row.job row.grade = some id ↔ ¬LeftDisplaced changes id)) ∧
    (∃ displaced : List RoleId, displaced.Nodup ∧
      (∀ id, id ∈ displaced ↔ LeftDisplaced changes id) ∧
      index.size = index.slots.size + displaced.length) ∧
    ((∀ id, ¬LeftDisplaced changes id) →
      (∀ id id' row row', index.role id = some row → index.role id' = some row' →
        row.job = row'.job → row.grade = row'.grade → id = id') ∧
      index.size = index.slots.size) := by
  intro index
  have hplaced : index.Placed := (sound_empty.after hproper).placed
  have hdisplaced : ∀ id, id ∈ index.displaced ↔ LeftDisplaced changes id :=
    fun _ => mem_displaced_after_iff hproper
  have hslot : ∀ id row, index.role id = some row →
      (index.roleId row.job row.grade = some id ↔ ¬LeftDisplaced changes id) := by
    intro id row hrole
    rw [← hdisplaced]
    exact ⟨fun hslot hmem => hplaced.not_slot_of_displaced hmem _ _ hslot,
      roleId_of_not_displaced hrole⟩
  refine ⟨hslot, ⟨index.displaced, index.nodup_displaced, hdisplaced, size_eq hplaced⟩, ?_⟩
  intro hnone
  constructor
  · intro id id' row row' hrole hrole' hjob hgrade
    have hown := (hslot id row hrole).mpr (hnone id)
    have hown' := (hslot id' row' hrole').mpr (hnone id')
    rw [hjob, hgrade, hown', Option.some.injEq] at hown
    exact hown.symm
  · have hempty : index.displaced = [] :=
      List.eq_nil_iff_forall_not_mem.mpr fun id hmem => hnone id ((hdisplaced id).mp hmem)
    rw [size_eq hplaced, hempty, List.length_nil, Nat.add_zero]

/-- A role of the police is put into the slot of another one, and then the police are replaced by
what they are listed to have. -/
def succession : List Change :=
  [.upsert ⟨⟨1⟩, "police", 5⟩, .upsert ⟨⟨2⟩, "police", 5⟩,
    .replaceJob "police" [⟨⟨2⟩, "police", 5⟩]]

/-- The first role stays cached without a slot, even after its job has been replaced. -/
theorem predecessor_stays_cached :
    (∀ change ∈ succession, change.Proper) ∧ LeftDisplaced succession ⟨1⟩ ∧
      (after {} succession).role ⟨1⟩ = some ⟨⟨1⟩, "police", 5⟩ ∧
      (after {} succession).roleId "police" 5 ≠ some ⟨1⟩ ∧
      (after {} succession).size = 2 ∧ (after {} succession).slots.size = 1 := by
  have hproper : ∀ change ∈ succession, change.Proper := by
    simp only [succession, List.forall_mem_cons, Change.Proper]
    exact ⟨trivial, trivial, by decide, List.forall_mem_nil _⟩
  have hleft : LeftDisplaced succession ⟨1⟩ :=
    ⟨[.upsert ⟨⟨1⟩, "police", 5⟩], .upsert ⟨⟨2⟩, "police", 5⟩, _, rfl,
      ⟨_, rfl, by decide +kernel, by decide⟩, by simp [Change.Settles, claims]⟩
  have hrole : (after {} succession).role ⟨1⟩ = some ⟨⟨1⟩, "police", 5⟩ := by decide +kernel
  refine ⟨hproper, hleft, hrole, ?_, by decide +kernel, by decide +kernel⟩
  exact fun hslot => ((roleId_of_history hproper).1 ⟨1⟩ _ hrole).mp hslot hleft

end RoleIndex

end GradedAccess
