import GradedAccess.Proofs.Attribute.Limited
import GradedAccess.Proofs.Sync.Commit

/-!
# Cached values keep to their limits

A value is kept to its limits once, when it is loaded.  Its limits may be loaded again without it,
and the role it is for may come into a chain without its values being looked at.  So a cached value
could be out of step with the cached limits, and the reason it never is lies with the roles.

Values are only loaded together with the limits they are kept to, or with the role of which they
are values.  A job's ceilings are never loaded without the values of all roles in its slots.  And a
role that comes into a slot without its values has no cached values, or was in that slot already.
The last point is where the store comes in: a role that has been taken out of its slot was deleted,
and a role that was deleted does not come back.

`Caches.Bounded` is the invariant.  It speaks of the store only for the sake of the last point, and
so it lasts while the store ages, whatever happens to grants, values, ceilings and the catalog of
the store.  What a reload does to the values of one role is an `Outcome`, and `Bounded.after` is the
law that goes through the roles.
-/

namespace GradedAccess

open Std (ExtTreeMap)

variable {store store' : MemoryStore} {id : RoleId} {job : String}

/-- Roles that are in sync up to something are so with everything due. -/
theorem RoleIndex.InSync.all_due {due : Part → Prop} {index : RoleIndex}
    (h : index.InSync due store) : index.InSync (fun _ => True) store :=
  h.mono fun _ _ => trivial

/-! ## Screened values -/

/-- A value that is left by a screening is of a known role and a known attribute, and keeps to the
limits it was screened with. -/
theorem Known.of_mem_screenValues {known : Known}
    {ceiling : String → AttributeId → Option AttributeValue} {rows : List RoleValue}
    {screened : Screened (RoleId × AttributeId × AttributeValue)}
    (h : known.screenValues ceiling rows = .ok screened) {attr : AttributeId}
    {value : AttributeValue} (hmem : (id, attr, value) ∈ screened.entries) :
    ∃ job row, known.jobOf id = some job ∧ known.attr attr = some row ∧ value.kind = row.kind ∧
      value.check row.kind (some row.valid) (ceiling job row.id) = .ok ⟨value, true, false⟩ := by
  obtain ⟨hfits, hentries⟩ := Known.exists_screenValues_iff.mp ⟨screened, h, rfl⟩
  rw [hentries, List.mem_filterMap] at hmem
  obtain ⟨listed, hlisted, hentry⟩ := hmem
  rw [valueEntry, Option.bind_eq_some_iff] at hentry
  obtain ⟨job, hjob, hentry⟩ := hentry
  obtain ⟨row, hrow, hentry⟩ := Option.map_eq_some_iff.mp hentry
  simp only [Prod.mk.injEq] at hentry
  obtain ⟨rfl, rfl, rfl⟩ := hentry
  obtain ⟨hvalue, hvalid, hmost⟩ := hfits listed hlisted job row hjob hrow
  have hcheck : (AttributeValue.orEmpty row.kind listed.value).check row.kind (some row.valid)
      (ceiling job row.id) = .ok
        ((AttributeValue.orEmpty row.kind listed.value).limited (some row.valid)
          (ceiling job row.id)) := by
    refine AttributeValue.check_eq_ok_iff.mpr ⟨AttributeValue.kind_orEmpty hvalue, ?_, hmost, rfl⟩
    rintro _ ⟨⟩
    exact hvalid
  obtain ⟨hkind, hagain⟩ := AttributeValue.check_of_check hcheck
  exact ⟨job, row, hjob, hrow, hkind, hagain⟩

namespace Caches

variable {caches caches' : Caches} {report : Report}

/-- Whether caches know an attribute, a value is of its kind, and checking the value against the
valid values of the attribute and the ceiling of a job leaves it as it is. -/
def Allows (caches : Caches) (job : String) (attr : AttributeId) (value : AttributeValue) : Prop :=
  ∃ row, caches.catalog.attr attr = some row ∧ value.kind = row.kind ∧
    value.check row.kind (some row.valid) (caches.ceiling job attr) = .ok ⟨value, true, false⟩

/-- Whether the cached values of all roles in slots keep to their limits, and will go on doing so
when roles of the store are put into the slots they have. -/
structure Bounded (caches : Caches) (store : MemoryStore) : Prop where
  /-- Cached roles need not be there any more, but those that are have not changed. -/
  roles : caches.roles.InSync (fun _ => True) store
  given : ∀ ⦃id : RoleId⦄ ⦃attr : AttributeId⦄, (id, attr) ∈ caches.values →
    id.num.toNat < store.next
  attribute_id : ∀ ⦃attr : AttributeId⦄ ⦃row : Attribute⦄, caches.catalog.attr attr = some row →
    row.id = attr
  /-- A role that exists and has cached values is in its slot. -/
  parked : ∀ ⦃id : RoleId⦄ ⦃row : Role⦄ ⦃attr : AttributeId⦄, store.roles[id]? = some row →
    (id, attr) ∈ caches.values → caches.roles.roleId row.job row.grade = some id
  within : ∀ ⦃job : String⦄ ⦃grade : Grade⦄ ⦃id : RoleId⦄ ⦃attr : AttributeId⦄
    ⦃value : AttributeValue⦄, caches.roles.roleId job grade = some id →
      caches.value id attr = some value → caches.Allows job attr value

/-- Empty caches hold nothing that could exceed a limit. -/
theorem bounded_empty (store : MemoryStore) : Bounded {} store := by
  constructor
  · constructor <;> simp [RoleIndex.Filed, RoleIndex.Placed, RoleIndex.role, RoleIndex.roleId]
  all_goals simp [Catalog.attr, value]

/-- What keeps to its limits goes on doing so while the store ages. -/
theorem Bounded.age (h : caches.Bounded store) (hages : store.Ages store') (hsound : store.Sound)
    (hroom : store'.next ≤ UInt64.size) : caches.Bounded store' where
  roles := {
    filed := h.roles.filed
    placed := h.roles.placed
    given := fun id row hrow => Nat.lt_of_lt_of_le (h.roles.given hrow) hages.next_le
    same := fun id row row' hrow hrow' =>
      h.roles.same hrow (hages.older hsound hroom hrow' (h.roles.given hrow))
    role := fun id hnot => absurd trivial hnot
    slot := fun id row hnot _ => absurd trivial hnot }
  given id attr hmem := Nat.lt_of_lt_of_le (h.given hmem) hages.next_le
  attribute_id := h.attribute_id
  parked id row attr hrow hmem := by
    have hbefore : store.roles[id]? = some row := hages.older hsound hroom hrow (h.given hmem)
    exact h.parked hbefore hmem
  within := h.within

/-! ## What becomes of the values of one role -/

/-- What a reload has done to the values of a role: kept them, taken them under the limits of the
job the role has in the store, or dropped them. -/
inductive Outcome (store : MemoryStore) (caches caches' : Caches) (id : RoleId) : Prop where
  /-- The values are kept.  The role gets no slot it did not have, keeps the one it has in the
  store, and the ceilings of its job stay. -/
  | kept (hvalues : ∀ attr, caches'.value id attr = caches.value id attr)
    (hslot : ∀ job grade, caches'.roles.roleId job grade = some id →
      caches.roles.roleId job grade = some id ∧
        ∀ attr, caches'.ceiling job attr = caches.ceiling job attr)
    (hstays : ∀ row, store.roles[id]? = some row →
      caches.roles.roleId row.job row.grade = some id →
        caches'.roles.roleId row.job row.grade = some id)
  | taken (row : Role) (hrow : store.roles[id]? = some row)
    (hslot : caches'.roles.roleId row.job row.grade = some id)
    (hallows : ∀ attr value, caches'.value id attr = some value →
      caches'.Allows row.job attr value)
  | dropped (hnone : ∀ attr, caches'.value id attr = none)

theorem cached_iff {attr : AttributeId} :
    (id, attr) ∈ caches.values ↔ ∃ value, caches.value id attr = some value :=
  mem_iff_exists

/-- **Values keep to their limits** through a reload that leaves the catalog alone. -/
theorem Bounded.after (h : caches.Bounded store) (hsound : store.Sound)
    (hcatalog : caches'.catalog = caches.catalog)
    (hroles : caches'.roles.InSync (fun _ => True) store)
    (houtcome : ∀ id, Outcome store caches caches' id) : caches'.Bounded store where
  roles := hroles
  given id attr hmem := by
    obtain ⟨value, hvalue⟩ := cached_iff.mp hmem
    cases houtcome id with
    | kept hvalues =>
      rw [hvalues] at hvalue
      exact h.given (cached_iff.mpr ⟨value, hvalue⟩)
    | taken row hrow => exact hsound.role_given (mem_iff_exists.mpr ⟨row, hrow⟩)
    | dropped hnone => simp [hnone] at hvalue
  attribute_id := hcatalog ▸ h.attribute_id
  parked id row attr hrow hmem := by
    obtain ⟨value, hvalue⟩ := cached_iff.mp hmem
    cases houtcome id with
    | kept hvalues _ hstays =>
      rw [hvalues] at hvalue
      exact hstays row hrow (h.parked hrow (cached_iff.mpr ⟨value, hvalue⟩))
    | taken row' hrow' hslot =>
      obtain rfl : row' = row := Option.some.inj (hrow'.symm.trans hrow)
      exact hslot
    | dropped hnone => simp [hnone] at hvalue
  within job grade id attr value hslot hvalue := by
    cases houtcome id with
    | kept hvalues hslots =>
      obtain ⟨hbefore, hceiling⟩ := hslots job grade hslot
      rw [hvalues] at hvalue
      have hallows := h.within hbefore hvalue
      rwa [Allows, hcatalog, hceiling]
    | taken row hrow hown hallows =>
      -- the slot the role has is the one its row names
      obtain ⟨rfl, -⟩ := hroles.placed.slot_unique hown hslot
      exact hallows attr value hvalue
    | dropped hnone => simp [hnone] at hvalue

/-! ## One role -/

/-- When a role is put into its slot, the values of all roles may be kept. -/
theorem Bounded.outcome_upsert (h : caches.Bounded store) (hsound : store.Sound) {row : Role}
    (hrow : store.roles[row.id]? = some row)
    (hroles : caches'.roles = caches.roles.upsert row)
    (hceilings : caches'.ceilings = caches.ceilings)
    (hvalues : ∀ attr, caches'.value id attr = caches.value id attr) :
    Outcome store caches caches' id := by
  have hunmoved : caches.roles.Unmoved [row] := h.roles.unmoved fun other hother => by
    rwa [List.mem_singleton.mp hother]
  have hslots := RoleIndex.roleId_upsert hunmoved
  by_cases hcached : ∃ attr, (id, attr) ∈ caches.values
  · obtain ⟨attr, hmem⟩ := hcached
    refine .kept hvalues (fun job grade hslot => ⟨?_, fun attr => ?_⟩) fun row' hrow' hslot => ?_
    · rw [hroles, hslots] at hslot
      by_cases hown : job = row.job ∧ grade = row.grade
      · -- the role that is put into the slot has values, so it was there already
        rw [if_pos hown, Option.some.injEq] at hslot
        subst hslot
        rw [hown.1, hown.2]
        exact h.parked hrow hmem
      · rwa [if_neg hown] at hslot
    · rw [ceiling, hceilings, ceiling]
    · rw [hroles, hslots]
      by_cases hown : row'.job = row.job ∧ row'.grade = row.grade
      · rw [if_pos hown, hsound.slot_once hrow' hrow hown]
      · rwa [if_neg hown]
  · refine .dropped fun attr => ?_
    rw [hvalues]
    exact ExtTreeMap.getElem?_eq_none (not_exists.mp hcached attr)

/-- A role that the store does not have is dropped. -/
theorem Bounded.forget (h : caches.Bounded store) (hsound : store.Sound)
    (hnone : store.roles[id]? = none) : (caches.forget id).1.Bounded store := by
  refine h.after hsound rfl (h.roles.remove hnone).all_due fun id' => ?_
  have hvalue : ∀ attr, (caches.forget id).1.value id' attr =
      if id' = id then none else caches.value id' attr := fun attr =>
    PairTable.getElem?_replaceRow caches.values id [] id' attr
  have hslots : ∀ job grade, (caches.forget id).1.roles.roleId job grade =
      if caches.roles.roleId job grade = some id then none else caches.roles.roleId job grade :=
    RoleIndex.roleId_remove h.roles.filed h.roles.placed id
  by_cases hid : id' = id
  · exact .dropped fun attr => by rw [hvalue, if_pos hid]
  · refine .kept (fun attr => ?_) (fun job grade hslot => ⟨?_, fun _ => rfl⟩) fun row _ hslot => ?_
    · rw [hvalue, if_neg hid]
    · rw [hslots, Option.ite_none_left_eq_some] at hslot
      exact hslot.2
    · rw [hslots, hslot, if_neg]
      simpa using hid

/-- When the grants of a role are reloaded, the role gets its slot, and nobody looks at its
values. -/
theorem Bounded.reloadGrants (h : caches.Bounded store) (hsound : store.Sound) (id : RoleId)
    (rows : List Grant) : (caches.reloadGrants id store.roles[id]? rows).1.Bounded store := by
  cases hrow : store.roles[id]? with
  | none => exact h.forget hsound hrow
  | some row =>
    obtain rfl := hsound.role_id hrow
    have hroles := (h.roles.upsert hsound hrow).all_due
    exact h.after hsound rfl hroles fun id => h.outcome_upsert hsound hrow rfl rfl fun _ => rfl

/-- When the values of a role are reloaded, they are kept to the cached limits. -/
theorem Bounded.reloadValues (h : caches.Bounded store) (hsound : store.Sound) {id : RoleId}
    {rows : List RoleValue}
    (hchange : caches.reloadValues id store.roles[id]? rows = .ok (caches', report)) :
    caches'.Bounded store := by
  cases hrow : store.roles[id]? with
  | none =>
    rw [hrow] at hchange
    cases hchange
    exact h.forget hsound hrow
  | some row =>
    obtain rfl := hsound.role_id hrow
    rw [hrow] at hchange
    obtain ⟨screened, hscreened, hcommit⟩ := bind_eq_ok_iff.mp hchange
    cases hcommit
    have hroles := (h.roles.upsert hsound hrow).all_due
    have howner : ∀ {id : RoleId} {job : String},
        (caches.knownFor row.id row).jobOf id = some job → id = row.id ∧ row.job = job := by
      intro id job hjob
      simpa [knownFor] using hjob
    have hnamed : ∀ entry ∈ screened.entries, entry.1 ∈ [row.id] := by
      intro entry hentry
      obtain ⟨job, -, hjob, -⟩ := Known.of_mem_screenValues hscreened hentry
      exact List.mem_singleton.mpr (howner hjob).1
    refine h.after hsound rfl hroles fun id => ?_
    by_cases hid : id = row.id
    · subst hid
      have hunmoved : caches.roles.Unmoved [row] := h.roles.unmoved fun other hother => by
        rwa [List.mem_singleton.mp hother]
      refine .taken row hrow ?_ fun attr value hvalue => ?_
      · show (caches.roles.upsert row).roleId row.job row.grade = some row.id
        rw [RoleIndex.roleId_upsert hunmoved, if_pos ⟨rfl, rfl⟩]
      · rcases PairTable.mem_of_replaceRows caches.values hvalue with hmem | ⟨hnot, -⟩
        · obtain ⟨job, found, hjob, hfound, hkind, hcheck⟩ :=
            Known.of_mem_screenValues hscreened hmem
          obtain ⟨-, rfl⟩ := howner hjob
          rw [h.attribute_id hfound] at hcheck
          exact ⟨found, hfound, hkind, hcheck⟩
        · exact absurd (List.mem_singleton_self _) hnot
    · refine h.outcome_upsert hsound hrow rfl rfl fun attr => ?_
      have hreplaced := PairTable.getElem?_replaceRows_of_named caches.values hnamed id attr
      rwa [if_neg] at hreplaced
      rwa [List.mem_singleton]

/-! ## A job -/

/-- What a reload of a job has screened is for roles of the job, and keeps to the ceilings that were
loaded with it. -/
theorem Bounded.of_mem_screenValues_knownAmong (h : caches.Bounded store) (hsound : store.Sound)
    {rows : JobRows} (hlisted : rows.roles = store.listRoles (some job))
    {ceiling : String → AttributeId → Option AttributeValue}
    {screened : Screened (RoleId × AttributeId × AttributeValue)}
    (hscreened : (caches.knownAmong (rows.own job)).screenValues ceiling rows.values =
      .ok screened) {attr : AttributeId} {value : AttributeValue}
    (hmem : (id, attr, value) ∈ screened.entries) :
    (∃ owner ∈ rows.own job, owner.id = id) ∧ ∃ row, caches.catalog.attr attr = some row ∧
      value.kind = row.kind ∧
      value.check row.kind (some row.valid) (ceiling job attr) = .ok ⟨value, true, false⟩ := by
  obtain ⟨job', row, hjobOf, hrow, hkind, hcheck⟩ := Known.of_mem_screenValues hscreened hmem
  obtain ⟨owner, howner, hid, rfl⟩ := of_jobOf_knownAmong hjobOf
  have hjob : owner.job = job := ((JobRows.mem_own hlisted hsound owner).mp howner).2
  have hattr : row.id = attr := h.attribute_id hrow
  rw [hjob, hattr] at hcheck
  exact ⟨⟨owner, howner, hid⟩, row, hrow, hkind, hcheck⟩

/-- Whether caches are what a reload of a job makes of others.  The entries that replace the values
of the affected roles are for roles of the job, and keep to its new ceilings. -/
structure Refilled (caches caches' : Caches) (job : String) (rows : JobRows)
    (entries : List (RoleId × AttributeId × AttributeValue)) : Prop where
  catalog : caches'.catalog = caches.catalog
  roles : caches'.roles = (caches.roles.replaceJob job (rows.own job)).1
  values : caches'.values = (caches.values.replaceRows (caches.affected job rows) entries).1
  ceilings : ∀ ⦃job' : String⦄, job' ≠ job → ∀ attr,
    caches'.ceiling job' attr = caches.ceiling job' attr
  owner : ∀ ⦃entry : RoleId × AttributeId × AttributeValue⦄, entry ∈ entries →
    ∃ row ∈ rows.own job, row.id = entry.1
  allows : ∀ ⦃id : RoleId⦄ ⦃attr : AttributeId⦄ ⦃value : AttributeValue⦄,
    (id, attr, value) ∈ entries → caches'.Allows job attr value

theorem Bounded.refilled_of_reloadJob (h : caches.Bounded store) (hsound : store.Sound)
    {rows : JobRows} (hlisted : rows.roles = store.listRoles (some job))
    (hchange : caches.reloadJob job rows = .ok (caches', report)) :
    ∃ entries, caches.Refilled caches' job rows entries := by
  obtain ⟨ceilings, values, hceilings, hvalues, hcommit⟩ := reloadJob_eq_ok_iff.mp hchange
  cases hcommit
  have hceiling := getElem?_replaceRows_ceilings caches.ceilings fun _ _ _ hmost =>
    job_of_toCeilings hceilings hmost
  refine ⟨values.entries, rfl, rfl, rfl, fun job' hjob attr => ?_, fun entry hmem => ?_,
    fun id attr value hmem => ?_⟩
  · exact (hceiling job' attr).trans (if_neg hjob)
  · exact (h.of_mem_screenValues_knownAmong hsound hlisted hvalues hmem).1
  · obtain ⟨-, row, hrow, hkind, hcheck⟩ :=
      h.of_mem_screenValues_knownAmong hsound hlisted hvalues hmem
    refine ⟨row, hrow, hkind, ?_⟩
    rw [ceiling, hceiling, if_pos rfl]
    exact hcheck

section Refilled

variable {rows : JobRows} {entries : List (RoleId × AttributeId × AttributeValue)}

theorem Refilled.mem_affected (h : caches.Refilled caches' job rows entries) :
    ∀ entry ∈ entries, entry.1 ∈ caches.affected job rows := by
  intro entry hmem
  obtain ⟨row, hrow, hid⟩ := h.owner hmem
  rw [← hid]
  exact List.mem_append_right _ (List.mem_map_of_mem hrow)

theorem Refilled.mem_entries (h : caches.Refilled caches' job rows entries)
    (haffected : id ∈ caches.affected job rows) {attr : AttributeId} {value : AttributeValue}
    (hvalue : caches'.value id attr = some value) : (id, attr, value) ∈ entries := by
  rw [Caches.value, h.values] at hvalue
  rcases PairTable.mem_of_replaceRows caches.values hvalue with hmem | ⟨hnot, -⟩
  · exact hmem
  · exact absurd haffected hnot

/-- The roles of the job have their values taken under its new ceilings. -/
theorem Refilled.outcome_of_stored (h : caches.Refilled caches' job rows entries)
    (hsound : store.Sound) (hlisted : rows.roles = store.listRoles (some job)) {row : Role}
    (hrow : store.roles[row.id]? = some row) (hjob : row.job = job) :
    Outcome store caches caches' row.id := by
  have hown := JobRows.mem_own hlisted hsound
  have hclaim : row ∈ RoleIndex.claims job (rows.own job) :=
    (RoleIndex.InSync.mem_claims_of_store hown hsound).mpr ⟨hrow, hjob⟩
  have haffected : row.id ∈ caches.affected job rows :=
    List.mem_append_right _ (List.mem_map_of_mem ((hown row).mpr ⟨hrow, hjob⟩))
  refine .taken row hrow ?_ fun attr value hvalue => ?_
  · rw [h.roles, hjob]
    exact RoleIndex.roleId_replaceJob_self.mpr (RoleIndex.mem_claims_iff.mp hclaim).2.2
  · rw [hjob]
    exact h.allows (h.mem_entries haffected hvalue)

/-- Roles that were in the slots of the job and are gone have their values dropped. -/
theorem Refilled.outcome_of_gone (h : caches.Refilled caches' job rows entries)
    (hsound : store.Sound) (hlisted : rows.roles = store.listRoles (some job))
    (haffected : id ∈ caches.affected job rows) (hgone : id ∉ store.roles) :
    Outcome store caches caches' id := by
  refine .dropped fun attr => ?_
  by_contra hcached
  obtain ⟨value, hvalue⟩ := Option.ne_none_iff_exists'.mp hcached
  obtain ⟨row, hrow, hid⟩ := h.owner (h.mem_entries haffected hvalue)
  have hstored := ((JobRows.mem_own hlisted hsound row).mp hrow).1
  rw [hid] at hstored
  exact hgone (mem_iff_exists.mpr ⟨row, hstored⟩)

/-- Nothing happens to the values of other roles. -/
theorem Refilled.outcome_of_other (h : caches.Refilled caches' job rows entries)
    (hsound : store.Sound) (hroles : caches.roles.InSync (fun _ => True) store)
    (hlisted : rows.roles = store.listRoles (some job)) (hnot : id ∉ caches.affected job rows)
    (hother : ∀ row, store.roles[id]? = some row → row.job ≠ job) :
    Outcome store caches caches' id := by
  have hown := JobRows.mem_own hlisted hsound
  refine .kept (fun attr => ?_) (fun job' grade hslot => ?_) fun row hrow hslot => ?_
  · rw [value, h.values, PairTable.getElem?_replaceRows_of_named _ h.mem_affected, if_neg hnot,
      value]
  · rw [h.roles] at hslot
    have hjob : job' ≠ job := by
      rintro rfl
      have hclaim := (RoleIndex.roleId_replaceJob_self.mp hslot).exists_claim
      have hstored := (RoleIndex.InSync.mem_claims_of_store hown hsound).mp hclaim
      exact hother _ hstored.1 rfl
    exact ⟨RoleIndex.roleId_of_replaceJob hjob hslot, h.ceilings hjob⟩
  · have hunmoved : caches.roles.Unmoved (rows.own job) := hroles.unmoved fun row hrow =>
      ((hown row).mp hrow).1
    rw [h.roles, RoleIndex.roleId_replaceJob_of_unmoved hroles.filed hroles.placed hunmoved
      (hother row hrow)]
    exact hslot

end Refilled

/-- When a job is reloaded, the values of its roles are kept to its new ceilings. -/
theorem Bounded.reloadJob (h : caches.Bounded store) (hsound : store.Sound) {rows : JobRows}
    (hlisted : rows.roles = store.listRoles (some job))
    (hchange : caches.reloadJob job rows = .ok (caches', report)) : caches'.Bounded store := by
  obtain ⟨entries, hfilled⟩ := h.refilled_of_reloadJob hsound hlisted hchange
  have hroles : caches'.roles.InSync (fun _ => True) store := by
    rw [hfilled.roles]
    exact (h.roles.replaceJob (JobRows.mem_own hlisted hsound) hsound
      (JobRows.distinct_own hlisted hsound)).all_due
  refine h.after hsound hfilled.catalog hroles fun id => ?_
  rcases affected_cases h.roles hsound hlisted id with
    ⟨row, hrow, hjob, rfl⟩ | ⟨haffected, hgone⟩ | ⟨hnot, hother⟩
  · exact hfilled.outcome_of_stored hsound hlisted hrow hjob
  · exact hfilled.outcome_of_gone hsound hlisted haffected hgone
  · exact hfilled.outcome_of_other hsound h.roles hlisted hnot hother

/-! ## Everything -/

/-- The attributes of a full load are filed under their own numbers. -/
theorem id_of_knownAttributes {rows : Rows} {attr : AttributeId} {row : Attribute}
    (h : (knownAttributes rows)[attr]? = some row) : row.id = attr := by
  rw [knownAttributes, PairTable.getElem?_ofList] at h
  obtain ⟨listed, -, heq⟩ := List.mem_map.mp (PairTable.mem_of_lastFor h)
  obtain ⟨hid, rfl⟩ := Prod.mk.inj heq
  exact hid

/-- The attributes of a full load replace all others. -/
theorem attr_replaceAttributes_knownAttributes (catalog : Catalog) (rows : Rows)
    (attr : AttributeId) :
    (catalog.replaceAttributes (knownAttributes rows).values).1.attr attr =
      (knownAttributes rows)[attr]? := by
  have hsame : ExtTreeMap.ofList
      ((knownAttributes rows).values.map fun row => (row.id, row)) compare = knownAttributes rows :=
    MemoryStore.ofList_values Attribute.id fun _ _ => id_of_knownAttributes
  exact congrArg (·[attr]?) hsame

/-- What a full load has screened is for roles of the store, and keeps to the limits that were loaded
with it. -/
theorem of_mem_screenValues_knownIn (hsound : store.Sound) {rows : Rows}
    (hlisted : rows.roles = store.rows.roles)
    {ceiling : String → AttributeId → Option AttributeValue}
    {screened : Screened (RoleId × AttributeId × AttributeValue)}
    (h : (knownIn rows).screenValues ceiling rows.values = .ok screened) {attr : AttributeId}
    {value : AttributeValue} (hmem : (id, attr, value) ∈ screened.entries) :
    ∃ owner row, store.roles[id]? = some owner ∧ (knownAttributes rows)[attr]? = some row ∧
      value.kind = row.kind ∧ value.check row.kind (some row.valid) (ceiling owner.job attr) =
        .ok ⟨value, true, false⟩ := by
  obtain ⟨job, row, hjob, hrow, hkind, hcheck⟩ := Known.of_mem_screenValues h hmem
  have hjobOf : (knownIn rows).jobOf id = store.roles[id]?.map (·.job) := by
    rw [knownIn, hlisted, hsound.rolesById_rows]
  rw [hjobOf, Option.map_eq_some_iff] at hjob
  obtain ⟨owner, howner, rfl⟩ := hjob
  rw [id_of_knownAttributes hrow] at hcheck
  exact ⟨owner, row, howner, hrow, hkind, hcheck⟩

/-- After a full load everything keeps to its limits, whatever the caches held before. -/
theorem bounded_of_load (hsound : store.Sound) (hfiled : caches.roles.Filed) {rows : Rows}
    (hlisted : rows.roles = store.rows.roles)
    (hload : caches.load rows = .ok (caches', report)) : caches'.Bounded store := by
  obtain ⟨ceilings, values, -, hvalues, hafter⟩ := load_eq_ok hload
  have hroles : caches'.roles = (caches.roles.replaceAll store.rows.roles).1 := by
    rw [hafter, hlisted]
  have hslot : ∀ job grade id, caches'.roles.roleId job grade = some id ↔
      ∃ row, store.roles[id]? = some row ∧ row.job = job ∧ row.grade = grade := by
    rw [hroles]
    exact roleId_of_load hsound hfiled
  have hindex : caches'.roles.InSync (fun _ => True) store := by
    refine (RoleIndex.InSync.of_store hsound ?_ hslot).all_due
    rw [hroles]
    exact role_of_load hsound hfiled
  have hattr : ∀ attr, caches'.catalog.attr attr = (knownAttributes rows)[attr]? := by
    intro attr
    rw [hafter]
    exact attr_replaceAttributes_knownAttributes _ rows attr
  have hceiling : ∀ job attr, caches'.ceiling job attr = ceilings.toCeilings[(job, attr)]? := by
    intro job attr
    rw [hafter, ceiling, PairTable.getElem?_replaceRows_firsts, ← PairTable.lastFor_pair,
      PairTable.lastFor_toList]
  have hentry : ∀ {id : RoleId} {attr : AttributeId} {value : AttributeValue},
      caches'.value id attr = some value → ∃ owner, store.roles[id]? = some owner ∧
        caches'.Allows owner.job attr value := by
    intro id attr value hfound
    rw [hafter] at hfound
    have hmem : (id, attr, value) ∈ values.entries := by
      rcases PairTable.mem_of_replaceRows caches.values hfound with hmem | ⟨hnot, hkept⟩
      · exact hmem
      · exact absurd (PairTable.mem_firsts_iff.mpr ⟨attr, mem_iff_exists.mpr ⟨_, hkept⟩⟩) hnot
    obtain ⟨owner, row, howner, hrow, hkind, hcheck⟩ :=
      of_mem_screenValues_knownIn hsound hlisted hvalues hmem
    refine ⟨owner, howner, row, (hattr attr).trans hrow, hkind, ?_⟩
    rwa [hceiling]
  refine ⟨hindex, fun id attr hmem => ?_, fun attr row hrow => ?_, fun id row attr hrow hmem => ?_,
    fun job grade id attr value hown hvalue => ?_⟩
  · obtain ⟨value, hvalue⟩ := cached_iff.mp hmem
    obtain ⟨owner, howner, -⟩ := hentry hvalue
    exact hsound.role_given (mem_iff_exists.mpr ⟨owner, howner⟩)
  · exact id_of_knownAttributes ((hattr attr).symm.trans hrow)
  · exact (hslot row.job row.grade id).mpr ⟨row, hrow, rfl, rfl⟩
  · obtain ⟨owner, howner, hallows⟩ := hentry hvalue
    obtain ⟨row, hrow, rfl, -⟩ := (hslot job grade id).mp hown
    obtain rfl : owner = row := Option.some.inj (howner.symm.trans hrow)
    exact hallows

end Caches

end GradedAccess
