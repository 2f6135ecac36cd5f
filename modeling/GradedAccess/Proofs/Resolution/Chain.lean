import GradedAccess.Proofs.Reload.Mirror
import GradedAccess.Resolution

/-!
# Who is heard along a chain

Resolving walks a chain from its highest grade down and stops at the first role that says
something.  Since the slots of a job are in ascending order, that is the role with the highest
grade among those that say anything (`highest_of_findSome?_chain`).

`Heard` says the same of a store, without slots and chains: of all roles of a job up to a grade
that say something, the one with the highest grade.  For caches that mirror a store the two agree
(`Mirrors.heard`).
-/

namespace GradedAccess

variable {β γ : Type}

/-! ## Slots in ascending order -/

/-- The walk over some slots from the end, with the slots above a grade left out. -/
def heardAmong (grade : Grade) (word : RoleId → Option β) (slots : List (Grade × RoleId)) :
    Option β :=
  (slots.filterMap fun slot => if slot.1 ≤ grade then some slot.2 else none).reverse.findSome? word

/-- The first slot is heard only if no later one is. -/
theorem heardAmong_cons (grade : Grade) (word : RoleId → Option β) (slot : Grade × RoleId)
    (slots : List (Grade × RoleId)) :
    heardAmong grade word (slot :: slots) =
      (heardAmong grade word slots).or (if slot.1 ≤ grade then word slot.2 else none) := by
  rw [heardAmong, List.filterMap_cons]
  by_cases h : slot.1 ≤ grade
  · simp only [h, if_true, List.reverse_cons, List.findSome?_append, heardAmong]
    congr 1
    cases hword : word slot.2 <;> simp [hword]
  · simp [h, heardAmong]

/-- Nothing is heard if no slot up to the grade says anything. -/
theorem heardAmong_eq_none_iff {grade : Grade} {word : RoleId → Option β}
    {slots : List (Grade × RoleId)} :
    heardAmong grade word slots = none ↔ ∀ slot ∈ slots, slot.1 ≤ grade → word slot.2 = none := by
  induction slots with
  | nil => simp [heardAmong]
  | cons slot slots ih =>
    rw [heardAmong_cons, Option.or_eq_none_iff, ih, List.forall_mem_cons]
    by_cases h : slot.1 ≤ grade <;> simp [h, and_comm]

/-- Of slots in ascending order the highest one that says anything is heard. -/
theorem highest_of_heardAmong {grade : Grade} {word : RoleId → Option β}
    {slots : List (Grade × RoleId)} {b : β}
    (hslots : slots.Pairwise fun x y => compare x.1 y.1 = .lt)
    (h : heardAmong grade word slots = some b) :
    ∃ slot ∈ slots, slot.1 ≤ grade ∧ word slot.2 = some b ∧
      ∀ other ∈ slots, other.1 ≤ grade → word other.2 ≠ none → other.1 ≤ slot.1 := by
  induction slots with
  | nil => cases h
  | cons first slots ih =>
    rw [List.pairwise_cons] at hslots
    rw [heardAmong_cons, Option.or_eq_some_iff] at h
    rcases h with h | ⟨hnone, h⟩
    · obtain ⟨slot, hmem, hgrade, hword, hhighest⟩ := ih hslots.2 h
      refine ⟨slot, List.mem_cons_of_mem _ hmem, hgrade, hword, ?_⟩
      rw [List.forall_mem_cons]
      refine ⟨fun _ _ => ?_, hhighest⟩
      exact Std.le_of_lt (Std.compare_eq_lt.mp (hslots.1 slot hmem))
    · rw [Option.ite_none_right_eq_some] at h
      refine ⟨first, List.mem_cons_self, h.1, h.2, ?_⟩
      rw [List.forall_mem_cons]
      refine ⟨fun _ _ => Std.le_refl _, fun other hmem hgrade hword => ?_⟩
      exact absurd (heardAmong_eq_none_iff.mp hnone other hmem hgrade) hword

namespace RoleIndex

variable {index : RoleIndex} {job : String} {grade : Grade} {word : RoleId → Option β} {b : β}

theorem findSome?_chain_eq_none_iff :
    (index.chain job grade).reverse.findSome? word = none ↔
      ∀ own ≤ grade, ∀ id, index.roleId job own = some id → word id = none := by
  have hwalk : (index.chain job grade).reverse.findSome? word =
      heardAmong grade word (index.slots.row job) := rfl
  rw [hwalk, heardAmong_eq_none_iff]
  simp only [Prod.forall, PairTable.mem_row_iff, roleId]
  exact ⟨fun h own hown id hid => h own id hid hown, fun h own id hid hown => h own hown id hid⟩

/-- The role that is heard along a chain is the one with the highest grade among those that say
anything. -/
theorem highest_of_findSome?_chain (h : (index.chain job grade).reverse.findSome? word = some b) :
    ∃ own id, own ≤ grade ∧ index.roleId job own = some id ∧ word id = some b ∧
      ∀ own' ≤ grade, ∀ id', index.roleId job own' = some id' → word id' ≠ none → own' ≤ own := by
  obtain ⟨slot, hmem, hgrade, hword, hhighest⟩ :=
    highest_of_heardAmong (PairTable.pairwise_row index.slots job) h
  refine ⟨slot.1, slot.2, hgrade, PairTable.mem_row_iff.mp hmem, hword, ?_⟩
  intro own' hown' id' hid' hword'
  exact hhighest (own', id') (PairTable.mem_row_iff.mpr hid') hown' hword'

end RoleIndex

/-! ## The roles of a store -/

namespace MemoryStore

variable {store : MemoryStore} {job : String} {grade : Grade}

/-- Whether a role of a store counts for a grade of a job. -/
def Counts (store : MemoryStore) (job : String) (grade : Grade) (role : Role) : Prop :=
  store.roles[role.id]? = some role ∧ role.job = job ∧ role.grade ≤ grade

/-- What is heard of the roles of a store: what the highest one says of all that count and say
anything, or nothing if none of them does. -/
def Heard (store : MemoryStore) (job : String) (grade : Grade) (word : RoleId → Option β) :
    Option β → Prop
  | some b => ∃ role, store.Counts job grade role ∧ word role.id = some b ∧
      ∀ other, store.Counts job grade other → word other.id ≠ none → other.grade ≤ role.grade
  | none => ∀ role, store.Counts job grade role → word role.id = none

/-- Only one thing is heard. -/
theorem Heard.unique (hsound : store.Sound) {word : RoleId → Option β} {answer answer' : Option β}
    (h : store.Heard job grade word answer) (h' : store.Heard job grade word answer') :
    answer = answer' := by
  cases answer with
  | none =>
    cases answer' with
    | none => rfl
    | some b =>
      obtain ⟨role, hrole, hword, -⟩ := h'
      rw [h role hrole] at hword
      cases hword
  | some b =>
    obtain ⟨role, hrole, hword, hhighest⟩ := h
    cases answer' with
    | none =>
      rw [h' role hrole] at hword
      cases hword
    | some b' =>
      obtain ⟨role', hrole', hword', hhighest'⟩ := h'
      have hle := hhighest role' hrole' (by rw [hword']; nofun)
      have hle' := hhighest' role hrole (by rw [hword]; nofun)
      have hid := hsound.slot_once hrole.1 hrole'.1
        ⟨hrole.2.1.trans hrole'.2.1.symm, Std.le_antisymm hle' hle⟩
      rw [hid, hword'] at hword
      exact hword.symm

/-- What is heard of one thing is known from what is heard of another that it is made from. -/
theorem Heard.of_map {word : RoleId → Option β} {word' : RoleId → Option γ} {f : β → γ}
    (hmap : ∀ role, store.Counts job grade role → word' role.id = (word role.id).map f)
    {answer' : Option γ} (h : store.Heard job grade word' answer') :
    ∃ answer, store.Heard job grade word answer ∧ answer' = answer.map f := by
  cases answer' with
  | none =>
    refine ⟨none, fun role hrole => ?_, rfl⟩
    have hnone := h role hrole
    rwa [hmap role hrole, Option.map_eq_none_iff] at hnone
  | some c =>
    obtain ⟨role, hrole, hword, hhighest⟩ := h
    rw [hmap role hrole, Option.map_eq_some_iff] at hword
    obtain ⟨b, hb, rfl⟩ := hword
    refine ⟨some b, ⟨role, hrole, hb, fun other hother hword' => ?_⟩, rfl⟩
    refine hhighest other hother ?_
    rw [hmap other hother]
    simpa using hword'

end MemoryStore

namespace Caches

variable {caches : Caches} {store : MemoryStore}

/-- In caches that mirror a store, the chain of a grade holds the roles that count for it. -/
theorem Mirrors.mem_chain_iff (h : caches.Mirrors store) (hsound : store.Sound) {job : String}
    {grade : Grade} {id : RoleId} :
    id ∈ caches.roles.chain job grade ↔ ∃ role, store.Counts job grade role ∧ role.id = id := by
  rw [RoleIndex.mem_chain_iff]
  constructor
  · rintro ⟨own, hown, hslot⟩
    obtain ⟨role, hrole, hjob, hgrade⟩ := (h.slots job own id).mp hslot
    obtain rfl := hsound.role_id hrole
    exact ⟨role, ⟨hrole, hjob, hgrade ▸ hown⟩, rfl⟩
  · rintro ⟨role, ⟨hrole, hjob, hgrade⟩, rfl⟩
    exact ⟨role.grade, hgrade, (h.slots job role.grade role.id).mpr ⟨role, hrole, hjob, rfl⟩⟩

/-- In caches that mirror a store, a walk along a chain hears what is heard of the store. -/
theorem Mirrors.heard (h : caches.Mirrors store) (hsound : store.Sound) (job : String)
    (grade : Grade) (word : RoleId → Option β) :
    store.Heard job grade word ((caches.roles.chain job grade).reverse.findSome? word) := by
  have hslot : ∀ role, store.Counts job grade role →
      caches.roles.roleId job role.grade = some role.id := by
    intro role hrole
    exact (h.slots job role.grade role.id).mpr ⟨role, hrole.1, hrole.2.1, rfl⟩
  cases hfound : (caches.roles.chain job grade).reverse.findSome? word with
  | none =>
    intro role hrole
    exact RoleIndex.findSome?_chain_eq_none_iff.mp hfound role.grade hrole.2.2 role.id
      (hslot role hrole)
  | some b =>
    obtain ⟨own, id, hown, hid, hword, hhighest⟩ := RoleIndex.highest_of_findSome?_chain hfound
    obtain ⟨role, hrole, hjob, rfl⟩ := (h.slots job own id).mp hid
    obtain rfl := hsound.role_id hrole
    refine ⟨role, ⟨hrole, hjob, hown⟩, hword, fun other hother hword' => ?_⟩
    exact hhighest other.grade hother.2.2 other.id (hslot other hother) hword'

end Caches

end GradedAccess
