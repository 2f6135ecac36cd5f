import GradedAccess.Proofs.Replay.Events
import GradedAccess.Proofs.Resolution.Loaded

/-!
# What a higher grade adds

The roles that count for a grade of a job count for every higher grade too.  The chain of a higher
grade is the chain of a lower one with the roles `between` the two behind it
(`chain_eq_append`), since the slots of a job are in ascending order.  Everything that is read along
a chain therefore falls into two parts.

* Guard names are collected from all roles.  A higher grade has those of the lower one and those of
  the roles between.
* A permission is decided by the highest role that says anything.  The roles between are heard
  first, and only if none of them says anything does the decision fall through to the lower grade.

Nothing is assumed of the caches, so all this holds in whatever state reloads have left them.
-/

namespace GradedAccess

namespace RoleIndex

variable {index : RoleIndex} {job : String} {lower upper : Grade}

/-! ## The roles between two grades -/

/-- What slots leave of their roles when those above a grade are left out. -/
def upTo (grade : Grade) (slots : List (Grade × RoleId)) : List RoleId :=
  slots.filterMap fun slot => if slot.1 ≤ grade then some slot.2 else none

/-- What slots leave of their roles when those up to one grade and above another are left out. -/
def above (lower upper : Grade) (slots : List (Grade × RoleId)) : List RoleId :=
  slots.filterMap fun slot => if lower < slot.1 ∧ slot.1 ≤ upper then some slot.2 else none

/-- The roles of a job above one grade and up to another, lowest grade first. -/
def between (index : RoleIndex) (job : String) (lower upper : Grade) : List RoleId :=
  above lower upper (index.slots.row job)

theorem mem_between_iff {id : RoleId} :
    id ∈ index.between job lower upper ↔
      ∃ own, lower < own ∧ own ≤ upper ∧ index.roleId job own = some id := by
  simp only [between, above, List.mem_filterMap, Option.ite_none_right_eq_some,
    Option.some.injEq, Prod.exists, PairTable.mem_row_iff, roleId]
  constructor
  · rintro ⟨own, _, hrow, ⟨hlower, hupper⟩, rfl⟩
    exact ⟨own, hlower, hupper, hrow⟩
  · rintro ⟨own, hlower, hupper, hrow⟩
    exact ⟨own, id, hrow, ⟨hlower, hupper⟩, rfl⟩

/-- Slots that are all above a grade leave nothing up to it. -/
theorem upTo_eq_nil {slots : List (Grade × RoleId)} (h : ∀ slot ∈ slots, lower < slot.1) :
    upTo lower slots = [] := by
  refine List.filterMap_eq_nil_iff.mpr fun slot hmem => if_neg ?_
  exact Std.not_le.mpr (h slot hmem)

/-- Slots in ascending order are cut in two by a grade. -/
theorem upTo_eq_append (h : lower ≤ upper) {slots : List (Grade × RoleId)}
    (hslots : slots.Pairwise fun x y => compare x.1 y.1 = .lt) :
    upTo upper slots = upTo lower slots ++ above lower upper slots := by
  induction slots with
  | nil => rfl
  | cons first slots ih =>
    rw [List.pairwise_cons] at hslots
    have hrest := ih hslots.2
    by_cases hlow : first.1 ≤ lower
    · have hhigh : first.1 ≤ upper := Std.le_trans hlow h
      have hnot : ¬(lower < first.1 ∧ first.1 ≤ upper) := fun hn => Std.not_le.mpr hn.1 hlow
      simp only [upTo, above, List.filterMap_cons, if_pos hlow, if_pos hhigh, if_neg hnot,
        List.cons_append, List.cons.injEq, true_and]
      exact hrest
    · -- from here on all slots are above the lower grade
      have hfirst : lower < first.1 := Std.not_le.mp hlow
      have hnone : upTo lower slots = [] := upTo_eq_nil fun slot hmem =>
        Std.lt_trans hfirst (Std.compare_eq_lt.mp (hslots.1 slot hmem))
      rw [hnone, List.nil_append] at hrest
      have hnone' : upTo lower (first :: slots) = [] := by
        rw [upTo, List.filterMap_cons, if_neg hlow]
        exact hnone
      rw [hnone', List.nil_append]
      by_cases hhigh : first.1 ≤ upper
      · simp only [upTo, above, List.filterMap_cons, if_pos hhigh, if_pos (And.intro hfirst hhigh),
          List.cons.injEq, true_and]
        exact hrest
      · have hnot : ¬(lower < first.1 ∧ first.1 ≤ upper) := fun hn => hhigh hn.2
        simp only [upTo, above, List.filterMap_cons, if_neg hhigh, if_neg hnot]
        exact hrest

/-- The chain of a higher grade goes on where that of a lower one ends. -/
theorem chain_eq_append (h : lower ≤ upper) :
    index.chain job upper = index.chain job lower ++ index.between job lower upper :=
  upTo_eq_append h (PairTable.pairwise_row index.slots job)

/-- Along the chain of a higher grade the roles between are heard first. -/
theorem findSome?_chain_of_le (h : lower ≤ upper) {β : Type} (word : RoleId → Option β) :
    (index.chain job upper).reverse.findSome? word =
      ((index.between job lower upper).reverse.findSome? word).or
        ((index.chain job lower).reverse.findSome? word) := by
  rw [chain_eq_append h, List.reverse_append, List.findSome?_append]

end RoleIndex

namespace Caches

variable {job : String} {lower upper : Grade}

/-! ## What is read along both chains -/

/-- A decision falls through to a lower grade unless a role between the two has a grant. -/
theorem resolve_of_le (caches : Caches) (h : lower ≤ upper) (permission : PermissionId) :
    caches.resolve job upper permission =
      ((caches.roles.between job lower upper).reverse.findSome? (caches.grant · permission)).getD
        (caches.resolve job lower permission) := by
  rw [resolve, RoleIndex.findSome?_chain_of_le h, resolve]
  cases (caches.roles.between job lower upper).reverse.findSome? (caches.grant · permission) with
  | none => rfl
  | some allowed => rfl

/-- The guard names of a higher grade are those of a lower one and those of the roles between. -/
theorem mem_flattened_of_le_iff (caches : Caches) (h : lower ≤ upper) {entry : String} :
    entry ∈ caches.flattened job upper ↔ entry ∈ caches.flattened job lower ∨
      ∃ role ∈ caches.roles.between job lower upper, ∃ attr value,
        caches.value role attr = some value ∧ entry ∈ caches.entryGuards attr value := by
  simp only [mem_flattened_iff, RoleIndex.chain_eq_append h, List.mem_append, or_and_right,
    exists_or]

/-- **What a higher grade adds.**  All flattened guard names of a lower grade of a job are guard
names of a higher one.  Whatever is added comes from a value of a role of the job above the lower
grade and not above the higher one.  And a permission is decided otherwise only if such a role has a
grant for it. -/
theorem higher_grade_adds (caches : Caches) (job : String) (h : lower ≤ upper) :
    (∀ entry, entry ∈ caches.flattened job lower → entry ∈ caches.flattened job upper) ∧
    (∀ entry, entry ∈ caches.flattened job upper → entry ∉ caches.flattened job lower →
      ∃ own id attr value, (lower < own ∧ own ≤ upper) ∧ caches.roles.roleId job own = some id ∧
        caches.value id attr = some value ∧ entry ∈ caches.entryGuards attr value) ∧
    (∀ permission, caches.resolve job upper permission ≠ caches.resolve job lower permission →
      ∃ own id allowed, (lower < own ∧ own ≤ upper) ∧ caches.roles.roleId job own = some id ∧
        caches.grant id permission = some allowed) := by
  refine ⟨fun entry hentry => ?_, fun entry hentry hnew => ?_, fun permission hdiffers => ?_⟩
  · exact (caches.mem_flattened_of_le_iff h).mpr (Or.inl hentry)
  · have hadded := ((caches.mem_flattened_of_le_iff h).mp hentry).resolve_left hnew
    obtain ⟨id, hbetween, attr, value, hvalue, hguard⟩ := hadded
    obtain ⟨own, hlower, hupper, hslot⟩ := RoleIndex.mem_between_iff.mp hbetween
    exact ⟨own, id, attr, value, ⟨hlower, hupper⟩, hslot, hvalue, hguard⟩
  · rw [resolve_of_le caches h] at hdiffers
    cases hheard : (caches.roles.between job lower upper).reverse.findSome?
        (caches.grant · permission) with
    | none =>
      rw [hheard] at hdiffers
      exact absurd rfl hdiffers
    | some allowed =>
      obtain ⟨id, hmem, hgrant⟩ := List.exists_of_findSome?_eq_some hheard
      obtain ⟨own, hlower, hupper, hslot⟩ :=
        RoleIndex.mem_between_iff.mp (List.mem_reverse.mp hmem)
      exact ⟨own, id, allowed, ⟨hlower, hupper⟩, hslot, hgrant⟩

/-- Below the grades of a squad nothing is allowed.  Up to the higher of them, its roles add that
citizens may be listed and that their phone numbers are seen. -/
theorem squad_grades_add :
    let caches := ((ListStore.source 0).loadAll ⟨{}, ListStore.squad⟩).2.caches
    (4 : Grade) ≤ 7 ∧
      (∃ own id attr value, ((4 : Grade) < own ∧ own ≤ 7) ∧
        caches.roles.roleId "police" own = some id ∧ caches.value id attr = some value ∧
        "citizens-list-fields-phone" ∈ caches.entryGuards attr value) ∧
      ∃ own id allowed, ((4 : Grade) < own ∧ own ≤ 7) ∧
        caches.roles.roleId "police" own = some id ∧ caches.grant id ⟨1⟩ = some allowed := by
  intro caches
  have h : (4 : Grade) ≤ 7 := by decide
  obtain ⟨-, hflattened, hresolve⟩ := caches.higher_grade_adds "police" h
  refine ⟨h, hflattened _ ?_ ?_, hresolve ⟨1⟩ ?_⟩
  · decide +kernel
  · decide +kernel
  · decide +kernel

end Caches

end GradedAccess
