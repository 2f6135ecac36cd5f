import GradedAccess.Proofs.Reload.FullLoad
import GradedAccess.Proofs.Reload.Job
import GradedAccess.Proofs.Sync.InSync

/-!
# Reloads keep caches in sync

What the three reloads that events lead to make of caches that are in sync.  The rows of a reload
are fetched one kind after another, and the store may drift in between; so each kind of row is
related to the store as it was at some time before the end of the reload.  Only the rows of roles
come first, and are those of the store as it was when the reload began.

Afterwards the parts the event announces are not due any more, except for those that were touched
meanwhile.  None of the reloads fails, since all values are of the kind of their attribute.
-/

namespace GradedAccess

open Std (ExtTreeMap)

namespace Caches

variable {due touched : Part → Prop} {store store' between : MemoryStore} {caches : Caches}
variable {id : RoleId}

/-! ## Dropping a role -/

/-- Whether everything that is announced is about one role. -/
def Concerns (fresh : Part → Prop) (id : RoleId) : Prop :=
  ∀ part, fresh part → part = .role id ∨ part = .grants id ∨ part = .values id

theorem concerns_roleGrants (id : RoleId) : Concerns (Event.roleGrants id).Refreshes id := by
  intro part hpart
  cases part with
  | role id' => exact Or.inl (congrArg _ hpart)
  | grants id' => exact Or.inr (Or.inl (congrArg _ hpart))
  | values id' => exact hpart.elim
  | ceilings job => exact hpart.elim

theorem concerns_roleValues (id : RoleId) : Concerns (Event.roleValues id).Refreshes id := by
  intro part hpart
  cases part with
  | role id' => exact Or.inl (congrArg _ hpart)
  | grants id' => exact hpart.elim
  | values id' => exact Or.inr (Or.inr (congrArg _ hpart))
  | ceilings job => exact hpart.elim

theorem Concerns.role {fresh : Part → Prop} (h : Concerns fresh id) {id' : RoleId}
    (hfresh : fresh (.role id')) : id' = id := by
  rcases h _ hfresh with heq | heq | heq
  · exact Part.role.inj heq
  · cases heq
  · cases heq

theorem Concerns.grants {fresh : Part → Prop} (h : Concerns fresh id) {id' : RoleId}
    (hfresh : fresh (.grants id')) : id' = id := by
  rcases h _ hfresh with heq | heq | heq
  · cases heq
  · exact Part.grants.inj heq
  · cases heq

theorem Concerns.values {fresh : Part → Prop} (h : Concerns fresh id) {id' : RoleId}
    (hfresh : fresh (.values id')) : id' = id := by
  rcases h _ hfresh with heq | heq | heq
  · cases heq
  · cases heq
  · exact Part.values.inj heq

theorem Concerns.ceilings {fresh : Part → Prop} (h : Concerns fresh id) {job : String} :
    ¬fresh (.ceilings job) := by
  intro hfresh
  rcases h _ hfresh with heq | heq | heq <;> cases heq

/-- Roles that are in sync apart from one role stay so when that one is announced. -/
theorem Concerns.roles {fresh : Part → Prop} (h : Concerns fresh id) {index : RoleIndex}
    (hroles : index.InSync (fun part => due part ∧ part ≠ .role id) store)
    (hdrift : Drift touched store store') :
    index.InSync (DueAfter due touched fresh) store' := by
  refine (hroles.drift hdrift).mono fun id' hdue => hdue.imp_right fun hdue => ⟨hdue.1, ?_⟩
  intro hfresh
  exact hdue.2 (congrArg _ (h.role hfresh))

/-- The grants of another role are kept. -/
theorem Concerns.keptGrants {fresh : Part → Prop} (h : Concerns fresh id)
    {grants grants' : PairTable RoleId PermissionId Bool} {id' : RoleId} (hid : id' ≠ id)
    (hsame : ∀ permission : PermissionId,
      grants'[(id', permission)]? = grants[(id', permission)]?) :
    GrantsOutcome touched fresh store store' grants grants' id' :=
  .kept (fun hfresh => hid (h.grants hfresh)) (fun hfresh => absurd (h.role hfresh) hid) hsame

/-- The values of another role are kept. -/
theorem Concerns.keptValues {fresh : Part → Prop} (h : Concerns fresh id)
    {values values' : PairTable RoleId AttributeId AttributeValue} {id' : RoleId} (hid : id' ≠ id)
    (hsame : ∀ attr : AttributeId, values'[(id', attr)]? = values[(id', attr)]?) :
    ValuesOutcome due touched fresh store store' values values' id' :=
  .kept (fun hfresh => hid (h.values hfresh)) (fun hfresh => absurd (h.role hfresh) hid)
    (fun _ _ => h.ceilings) hsame

/-- After a role has been dropped that the store does not have, what was announced of it is in
sync. -/
theorem InSync.forget (h : caches.InSync due store) (hdrift : Drift touched store store')
    {fresh : Part → Prop} (hfresh : Concerns fresh id) (hnot : id ∉ store.roles) :
    (caches.forget id).1.InSync (DueAfter due touched fresh) store' where
  sound := hdrift.sound'
  kinds := hdrift.kinds h.kinds
  catalog := h.catalog.drift hdrift
  roles := hfresh.roles (h.roles.remove (ExtTreeMap.getElem?_eq_none hnot)) hdrift
  grants := by
    refine h.grants.after hdrift fun id' => ?_
    by_cases hid : id' = id
    · subst hid
      refine .dropped hnot fun permission => ?_
      rw [Caches.forget, PairTable.getElem?_replaceRow, if_pos rfl, PairTable.lastFor_nil]
    · refine hfresh.keptGrants hid fun permission => ?_
      rw [Caches.forget, PairTable.getElem?_replaceRow, if_neg hid]
  values := by
    refine h.values.after hdrift fun id' => ?_
    by_cases hid : id' = id
    · subst hid
      refine .dropped hnot fun attr => ?_
      rw [Caches.forget, PairTable.getElem?_replaceRow, if_pos rfl, PairTable.lastFor_nil]
    · refine hfresh.keptValues hid fun attr => ?_
      rw [Caches.forget, PairTable.getElem?_replaceRow, if_neg hid]
  ceilings := h.ceilings.after hdrift fun _ => .kept hfresh.ceilings fun _ => rfl

/-! ## The grants of a role -/

/-- The cached catalog has every permission of the store, at whatever time it is listed. -/
theorem InSync.permission_known (h : caches.InSync due store) (hdrift : Drift touched store store')
    (hbetween : Drift touched between store') {permission : PermissionId} {value : Bool}
    (hgrant : between.grants[(id, permission)]? = some value) :
    (caches.catalog.permission permission).isSome = true := by
  have hmem := (hbetween.sound.grant_known (mem_iff_exists.mpr ⟨value, hgrant⟩)).2
  rw [← hbetween.permissions, hdrift.permissions, ← h.catalog.permissions] at hmem
  exact ExtTreeMap.isSome_getElem?_iff_mem.mpr hmem

/-- The cached catalog has the attributes of the store, at whatever time they are looked up. -/
theorem InSync.attr_eq (h : caches.InSync due store) (hdrift : Drift touched store store')
    (hbetween : Drift touched between store') (attr : AttributeId) :
    caches.catalog.attr attr = between.attributes[attr]? := by
  rw [Catalog.attr, h.catalog.attributes, ← hdrift.attributes, hbetween.attributes]

/-- What becomes of the grants of a role when those of one role are reloaded. -/
theorem InSync.grantsOutcome_of_role (h : caches.InSync due store)
    (hdrift : Drift touched store store') (hbetween : Drift touched between store') {row : Role}
    (hmem : row.id ∈ store.roles) (role : RoleId) :
    GrantsOutcome touched (Event.roleGrants row.id).Refreshes store store' caches.grants
      (caches.grants.replaceRows [row.id] ((caches.knownFor row.id row).screenGrants
        (between.listGrants (some row.id))).entries).1 role := by
  have hnamed : ∀ entry ∈ ((caches.knownFor row.id row).screenGrants
      (between.listGrants (some row.id))).entries, entry.1 ∈ [row.id] := by
    intro entry hentry
    rw [Known.entries_screenGrants, List.mem_filterMap] at hentry
    obtain ⟨listed, hlisted, hentry⟩ := hentry
    rw [List.mem_singleton, Known.role_of_grantEntry hentry]
    exact MemoryStore.role_of_mem_listGrants hlisted
  have hreplaced := PairTable.getElem?_replaceRows_of_named caches.grants hnamed role
  by_cases hid : role = row.id
  · subst hid
    refine .taken hmem between hbetween fun permission => ?_
    have hrows := between.filter_listGrants (some row.id) row.id
    rw [if_pos (belongsTo_some_iff.mpr rfl)] at hrows
    rw [hreplaced, if_pos (List.mem_singleton_self _), Known.lastFor_screenGrants hrows]
    cases hgrant : between.grants[(row.id, permission)]? with
    | none => rfl
    | some value =>
      have hpermission := h.permission_known hdrift hbetween hgrant
      simp only [Option.bind_some, Caches.knownFor, if_true, Option.isSome_some, hpermission,
        Bool.and_self]
  · refine (concerns_roleGrants row.id).keptGrants hid fun permission => ?_
    rw [hreplaced, if_neg]
    rwa [List.mem_singleton]

/-- After the grants of a role have been reloaded, the role and its grants are in sync. -/
theorem InSync.reloadGrants (h : caches.InSync due store) (hdrift : Drift touched store store')
    (hbetween : Drift touched between store') (id : RoleId) :
    (caches.reloadGrants id store.roles[id]? (between.listGrants (some id))).1.InSync
      (DueAfter due touched (Event.roleGrants id).Refreshes) store' := by
  have hfresh := concerns_roleGrants id
  cases hrow : store.roles[id]? with
  | none => exact h.forget hdrift hfresh (notMem_of_eq_none hrow)
  | some row =>
    obtain rfl := h.sound.role_id hrow
    have hmem : row.id ∈ store.roles := mem_iff_exists.mpr ⟨row, hrow⟩
    exact {
      sound := hdrift.sound'
      kinds := hdrift.kinds h.kinds
      catalog := h.catalog.drift hdrift
      roles := hfresh.roles (h.roles.upsert h.sound hrow) hdrift
      grants := h.grants.after hdrift (h.grantsOutcome_of_role hdrift hbetween hmem)
      values := h.values.after hdrift fun id' => .kept id
        (fun hrole => hfresh.role hrole ▸ hmem) (fun _ _ => hfresh.ceilings) fun _ => rfl
      ceilings := h.ceilings.after hdrift fun _ => .kept hfresh.ceilings fun _ => rfl }

/-! ## The values of a role -/

/-- A value is kept to the ceiling of its attribute, whether that is looked up under the number of
the attribute or under the one in its row. -/
theorem InSync.map_kept (h : caches.InSync due store)
    (ceiling : AttributeId → Option AttributeValue) (attr : AttributeId)
    (value : Option AttributeValue) :
    ((caches.catalog.attr attr).map fun row => row.kept (ceiling row.id) value) =
      store.attributes[attr]?.map fun row => row.kept (ceiling attr) value := by
  rw [Catalog.attr, h.catalog.attributes]
  cases hrow : store.attributes[attr]? with
  | none => rfl
  | some row => rw [Option.map_some, Option.map_some, h.sound.attribute_id hrow]

/-- A value of the store, at whatever time, can be checked against ceilings of the right kinds. -/
theorem InSync.valueFits (h : caches.InSync due store) (hdrift : Drift touched store store')
    (hbetween : Drift touched between store') (hkinds : between.WellKinded) {known : Known}
    (hattr : known.attr = caches.catalog.attr)
    {ceiling : String → AttributeId → Option AttributeValue}
    (hceiling : ∀ (job : String) (attr : AttributeId) (most : AttributeValue) (row : Attribute),
      ceiling job attr = some most → store.attributes[attr]? = some row → most.kind = row.kind)
    {row : RoleValue} (hrow : between.values[(row.role, row.attr)]? = some row.value) :
    known.ValueFits ceiling row := by
  refine hkinds.valueFits hbetween.sound (fun attr => ?_) (fun job attr most row hmost hrow => ?_)
    hrow
  · rw [hattr, h.attr_eq hdrift hbetween]
  · refine hceiling job attr most row hmost ?_
    rwa [← hdrift.attributes, hbetween.attributes]

/-- What becomes of the values of a role when those of one role are reloaded. -/
theorem InSync.valuesOutcome_of_role (h : caches.InSync due store)
    (hdrift : Drift touched store store') (hbetween : Drift touched between store') {row : Role}
    (hrow : store.roles[row.id]? = some row) (role : RoleId) :
    ValuesOutcome due touched (Event.roleValues row.id).Refreshes store store' caches.values
      (caches.values.replaceRows [row.id] ((between.listValues (some row.id)).filterMap
        ((caches.knownFor row.id row).valueEntry caches.ceiling))).1 role := by
  have hfresh := concerns_roleValues row.id
  have hnamed : ∀ entry ∈ (between.listValues (some row.id)).filterMap
      ((caches.knownFor row.id row).valueEntry caches.ceiling), entry.1 ∈ [row.id] := by
    intro entry hentry
    obtain ⟨listed, hlisted, hentry⟩ := List.mem_filterMap.mp hentry
    rw [List.mem_singleton, Known.role_of_valueEntry hentry]
    exact belongsTo_some_iff.mp (MemoryStore.mem_listValues.mp hlisted).2
  have hreplaced := PairTable.getElem?_replaceRows_of_named caches.values hnamed role
  by_cases hid : role = row.id
  · subst hid
    refine .taken row hrow between hbetween (caches.ceiling row.job) (fun hnot attr => ?_)
      fun attr => ?_
    · rw [not_dueAfter_iff] at hnot
      rw [hdrift.ceilingOf_eq hnot.1]
      exact h.ceilings.ceiling (fun hdue => hfresh.ceilings (hnot.2 hdue)) attr
    · have hrows := between.filter_listValues (some row.id) row.id
      rw [if_pos (belongsTo_some_iff.mpr rfl)] at hrows
      rw [hreplaced, if_pos (List.mem_singleton_self _), Known.lastFor_valueEntries hrows]
      refine Option.bind_congr fun value _ => ?_
      simp only [Caches.knownFor, if_true, Option.bind_some]
      exact h.map_kept (caches.ceiling row.job) attr value
  · refine hfresh.keptValues hid fun attr => ?_
    rw [hreplaced, if_neg]
    rwa [List.mem_singleton]

/-- The values of a role are reloaded without a fault, and then the role and its values are in
sync. -/
theorem InSync.reloadValues (h : caches.InSync due store) (hdrift : Drift touched store store')
    (hbetween : Drift touched between store') (hkinds : between.WellKinded) (id : RoleId) :
    ∃ caches' report,
      caches.reloadValues id store.roles[id]? (between.listValues (some id)) =
        .ok (caches', report) ∧
      caches'.InSync (DueAfter due touched (Event.roleValues id).Refreshes) store' := by
  have hfresh := concerns_roleValues id
  cases hrow : store.roles[id]? with
  | none => exact ⟨_, _, rfl, h.forget hdrift hfresh (notMem_of_eq_none hrow)⟩
  | some row =>
    obtain rfl := h.sound.role_id hrow
    have hmem : row.id ∈ store.roles := mem_iff_exists.mpr ⟨row, hrow⟩
    have hfits : ∀ listed ∈ between.listValues (some row.id),
        (caches.knownFor row.id row).ValueFits caches.ceiling listed :=
      fun _ hlisted => h.valueFits hdrift hbetween hkinds rfl
        (fun _ _ _ _ hmost hattr => h.ceilings.kind hmost hattr)
        (MemoryStore.mem_listValues.mp hlisted).1
    obtain ⟨screened, hscreened, hentries⟩ :=
      Known.exists_screenValues_iff.mpr ⟨hfits, rfl⟩
    have hchange : caches.reloadValues row.id (some row) (between.listValues (some row.id)) =
        .ok (Caches.commitValues { caches with roles := caches.roles.upsert row } [row.id]
          screened) :=
      bind_eq_ok_iff.mpr ⟨screened, hscreened, rfl⟩
    refine ⟨_, _, hchange, ?_⟩
    exact {
      sound := hdrift.sound'
      kinds := hdrift.kinds h.kinds
      catalog := h.catalog.drift hdrift
      roles := hfresh.roles (h.roles.upsert h.sound hrow) hdrift
      grants := h.grants.after hdrift fun id' => .kept (fun hgrants => hgrants)
        (fun hrole => hfresh.role hrole ▸ hmem) fun _ => rfl
      values := by
        have houtcome := h.valuesOutcome_of_role hdrift hbetween hrow
        rw [← hentries] at houtcome
        exact h.values.after hdrift houtcome
      ceilings := h.ceilings.after hdrift fun _ => .kept hfresh.ceilings fun _ => rfl }

/-! ## A job -/

/-- How the grants and values fetched for some roles, one role after another, come from a store that
drifts meanwhile: those of each role are as the store had them at some time. -/
structure EachFrom (touched : Part → Prop) (store' : MemoryStore) (roles : List Role)
    (listedGrants : List Grant) (listedValues : List RoleValue) : Prop where
  grants : ∀ role ∈ roles, ∃ between : MemoryStore, Drift touched between store' ∧
    listedGrants.filter (·.role = role.id) =
      (between.grants.row role.id).map fun entry => ⟨role.id, entry.1, entry.2⟩
  values : ∀ role ∈ roles, ∃ between : MemoryStore, Drift touched between store' ∧
    between.WellKinded ∧ listedValues.filter (·.role = role.id) =
      (between.values.row role.id).map fun entry => ⟨role.id, entry.1, entry.2⟩
  grants_of : ∀ row ∈ listedGrants, ∃ role ∈ roles, role.id = row.role
  values_of : ∀ row ∈ listedValues, ∃ role ∈ roles, role.id = row.role

/-- How the rows fetched for a job come from a store that drifts meanwhile.  The roles are those of
the store as it was first, and the rest is from some time since then. -/
structure JobRows.From (rows : JobRows) (touched : Part → Prop) (store store' : MemoryStore)
    (job : String) : Prop extends EachFrom touched store' rows.roles rows.grants rows.values where
  roles : rows.roles = store.listRoles (some job)
  ceilings : ∃ between : MemoryStore, Drift touched between store' ∧ between.WellKinded ∧
    rows.ceilings = between.listCeilings (some job)

section Job

variable {job : String} {rows : JobRows}

/-- The roles of a job that are used are the roles the store has for the job. -/
theorem JobRows.mem_own (hlisted : rows.roles = store.listRoles (some job)) (hsound : store.Sound)
    (row : Role) : row ∈ rows.own job ↔ store.roles[row.id]? = some row ∧ row.job = job := by
  rw [JobRows.own, List.mem_filter, hlisted, hsound.mem_listRoles_some, decide_eq_true_eq,
    and_assoc, and_self]

theorem JobRows.distinct_own (hlisted : rows.roles = store.listRoles (some job))
    (hsound : store.Sound) : (rows.own job).Pairwise fun a b => a.id ≠ b.id := by
  rw [JobRows.own, hlisted]
  exact (hsound.distinct_roles.filter _).filter _

theorem JobRows.From.mem_own (h : rows.From touched store store' job) (hsound : store.Sound)
    (row : Role) : row ∈ rows.own job ↔ store.roles[row.id]? = some row ∧ row.job = job :=
  JobRows.mem_own h.roles hsound row

/-- Every role that was listed is used. -/
theorem JobRows.From.own_of_mem (h : rows.From touched store store' job) (hsound : store.Sound)
    {row : Role} (hmem : row ∈ rows.roles) : row ∈ rows.own job := by
  rw [h.mem_own hsound, ← hsound.mem_listRoles_some, ← h.roles]
  exact hmem

theorem JobRows.From.distinct (h : rows.From touched store store' job) (hsound : store.Sound) :
    (rows.own job).Pairwise fun a b => a.id ≠ b.id :=
  JobRows.distinct_own h.roles hsound

/-- Whether a table holds ceilings of a job only, and those a store had at some time. -/
structure CeilingsOf (touched : Part → Prop) (store' : MemoryStore) (job : String)
    (ceilings : Ceilings) : Prop where
  own : ∀ ⦃job' : String⦄ ⦃attr : AttributeId⦄ ⦃most : AttributeValue⦄,
    ceilings[(job', attr)]? = some most → job' = job
  taken : ∃ between : MemoryStore, Drift touched between store' ∧ between.WellKinded ∧
    ∀ attr : AttributeId, ceilings[(job, attr)]? = between.ceilingOf job attr

/-- The ceilings of a job are screened without a fault. -/
theorem InSync.screenCeilings (h : caches.InSync due store) (hdrift : Drift touched store store')
    (hrows : rows.From touched store store' job) (roles : List Role) :
    ∃ screened, (caches.knownAmong roles).screenCeilings (rows.ceilings.filter (·.job = job)) =
        .ok screened ∧ CeilingsOf touched store' job screened.toCeilings := by
  obtain ⟨between, hbetween, hkinds, hlisted⟩ := hrows.ceilings
  have hattr : ∀ attr, (caches.knownAmong roles).attr attr = between.attributes[attr]? :=
    h.attr_eq hdrift hbetween
  have hown : rows.ceilings.filter (·.job = job) = between.listCeilings (some job) := by
    rw [hlisted]
    refine List.filter_eq_self.mpr fun row hmem => decide_eq_true ?_
    exact belongsTo_some_iff.mp (MemoryStore.mem_listCeilings.mp hmem).2
  have hfits : ∀ row ∈ between.listCeilings (some job), (caches.knownAmong roles).CeilingFits row :=
    fun row hmem => hkinds.ceilingFits hattr (MemoryStore.mem_listCeilings.mp hmem).1
  obtain ⟨screened, hscreened, hentries⟩ := Known.exists_screenCeilings_iff.mpr ⟨hfits, rfl⟩
  rw [← hown] at hscreened
  refine ⟨screened, hscreened, fun _ _ _ hmost => job_of_toCeilings hscreened hmost, between,
    hbetween, hkinds, fun attr => ?_⟩
  rw [Screened.toCeilings, PairTable.getElem?_ofList, hentries]
  exact MemoryStore.lastFor_ceilingOf hattr (belongsTo_some_iff.mpr rfl) attr

/-- The values of a job's roles are screened without a fault. -/
theorem InSync.screenValues (h : caches.InSync due store) (hdrift : Drift touched store store')
    (hrows : rows.From touched store store' job) {ceilings : Ceilings}
    (hceilings : CeilingsOf touched store' job ceilings) (roles : List Role) :
    ∃ screened, (caches.knownAmong roles).screenValues (fun job attr => ceilings[(job, attr)]?)
        rows.values = .ok screened ∧
      screened.entries = rows.values.filterMap
        ((caches.knownAmong roles).valueEntry fun job attr => ceilings[(job, attr)]?) := by
  refine Known.exists_screenValues_iff.mpr ⟨fun row hmem => ?_, rfl⟩
  obtain ⟨role, hrole, hid⟩ := hrows.values_of row hmem
  obtain ⟨between, hbetween, hkinds, hlisted⟩ := hrows.values role hrole
  have hrow : row ∈ rows.values.filter (·.role = role.id) :=
    List.mem_filter.mpr ⟨hmem, decide_eq_true hid.symm⟩
  rw [hlisted, List.mem_map] at hrow
  obtain ⟨entry, hentry, rfl⟩ := hrow
  rw [PairTable.mem_row_iff] at hentry
  refine h.valueFits hdrift hbetween hkinds rfl (fun job' attr most row hmost hattr => ?_) hentry
  obtain rfl := hceilings.own hmost
  obtain ⟨between, hbetween, hkinds, htaken⟩ := hceilings.taken
  rw [htaken] at hmost
  refine hkinds.kind_ceilingOf hmost ?_
  rwa [← hbetween.attributes, hdrift.attributes]

/-- A role either is stored in the job, or is replaced and not stored, or is left alone and not
stored in the job. -/
theorem affected_cases (hroles : caches.roles.InSync due store) (hsound : store.Sound)
    (hlisted : rows.roles = store.listRoles (some job)) (id : RoleId) :
    (∃ row : Role, store.roles[row.id]? = some row ∧ row.job = job ∧ row.id = id) ∨
      id ∈ caches.affected job rows ∧ id ∉ store.roles ∨
      id ∉ caches.affected job rows ∧ ∀ row, store.roles[id]? = some row → row.job ≠ job := by
  by_cases hown : ∃ row : Role, store.roles[row.id]? = some row ∧ row.job = job ∧ row.id = id
  · exact Or.inl hown
  right
  have hother : ∀ row, store.roles[id]? = some row → row.job ≠ job := by
    intro row hrow hjob
    obtain rfl := hsound.role_id hrow
    exact hown ⟨row, hrow, hjob, rfl⟩
  by_cases haffected : id ∈ caches.affected job rows
  · refine Or.inl ⟨haffected, fun hmem => ?_⟩
    obtain ⟨row, hrow⟩ := mem_iff_exists.mp hmem
    rcases List.mem_append.mp haffected with hcached | haffected
    · -- a role that is both cached and stored has the same job in both places
      obtain ⟨grade, hslot⟩ := RoleIndex.mem_jobRoles_iff.mp hcached
      have hsame := hroles.same (hroles.placed hslot) hrow
      exact hother row hrow (hsame ▸ rfl)
    · obtain ⟨listed, hused, rfl⟩ := List.mem_map.mp haffected
      obtain ⟨hstored, hjob⟩ := (JobRows.mem_own hlisted hsound listed).mp hused
      exact hother listed hstored hjob
  · exact Or.inr ⟨haffected, hother⟩

/-- A role of the job has been listed. -/
theorem JobRows.From.mem_roles (h : rows.From touched store store' job) (hsound : store.Sound)
    {row : Role} (hrow : store.roles[row.id]? = some row) (hjob : row.job = job) :
    row ∈ rows.roles :=
  (List.mem_filter.mp ((h.mem_own hsound row).mpr ⟨hrow, hjob⟩)).1

/-- A listed role is one of those that are replaced. -/
theorem JobRows.From.mem_affected (h : rows.From touched store store' job) (hsound : store.Sound)
    (caches : Caches) {role : Role} (hrole : role ∈ rows.roles) :
    role.id ∈ caches.affected job rows :=
  List.mem_append_right _ (List.mem_map_of_mem (h.own_of_mem hsound hrole))

/-- Nothing is listed for a role that is not stored. -/
theorem JobRows.From.freshRow_eq_nil {β γ : Type} (h : rows.From touched store store' job)
    (hsound : store.Sound) {fresh : List (RoleId × β × γ)}
    (howner : ∀ entry ∈ fresh, ∃ role ∈ rows.roles, role.id = entry.1) (hnot : id ∉ store.roles) :
    PairTable.freshRow fresh id = [] := by
  refine PairTable.freshRow_eq_nil fun hmem => ?_
  obtain ⟨entry, hentry, rfl⟩ := List.mem_map.mp hmem
  obtain ⟨role, hrole, hid⟩ := howner entry hentry
  have hstored := (h.mem_own hsound role).mp (h.own_of_mem hsound hrole)
  exact hnot (hid ▸ mem_iff_exists.mpr ⟨role, hstored.1⟩)

/-- What becomes of the grants of a role when a job is reloaded. -/
theorem InSync.grantsOutcome_of_job (h : caches.InSync due store)
    (hdrift : Drift touched store store') (hrows : rows.From touched store store' job)
    (role : RoleId) :
    GrantsOutcome touched (Event.jobCeilings job).Refreshes store store' caches.grants
      (caches.grants.replaceRows (caches.affected job rows)
        ((caches.knownAmong (rows.own job)).screenGrants rows.grants).entries).1 role := by
  have howner : ∀ entry ∈ ((caches.knownAmong (rows.own job)).screenGrants rows.grants).entries,
      ∃ role ∈ rows.roles, role.id = entry.1 := by
    intro entry hentry
    rw [Known.entries_screenGrants, List.mem_filterMap] at hentry
    obtain ⟨row, hrow, hentry⟩ := hentry
    rw [Known.role_of_grantEntry hentry]
    exact hrows.grants_of row hrow
  have hreplaced := PairTable.getElem?_replaceRows_of_named caches.grants
    (fun entry hentry => by
      obtain ⟨role, hrole, hid⟩ := howner entry hentry
      exact hid ▸ hrows.mem_affected h.sound caches hrole) role
  rcases affected_cases h.roles h.sound hrows.roles role with ⟨row, hrow, hjob, rfl⟩ | ⟨haffected, hnot⟩ | ⟨hnot, -⟩
  · have hrole := hrows.mem_roles h.sound hrow hjob
    obtain ⟨between, hbetween, hlisted⟩ := hrows.grants row hrole
    refine .taken (mem_iff_exists.mpr ⟨row, hrow⟩) between hbetween fun permission => ?_
    rw [hreplaced, if_pos (hrows.mem_affected h.sound caches hrole),
      Known.lastFor_screenGrants hlisted, jobOf_knownAmong (hrows.distinct h.sound)
        (hrows.own_of_mem h.sound hrole)]
    cases hgrant : between.grants[(row.id, permission)]? with
    | none => rfl
    | some value =>
      have hpermission := h.permission_known hdrift hbetween hgrant
      simp only [Option.bind_some, knownAmong, Option.isSome_some, hpermission, Bool.and_self,
        if_true]
  · refine .dropped hnot fun permission => ?_
    rw [hreplaced, if_pos haffected, hrows.freshRow_eq_nil h.sound howner hnot,
      PairTable.lastFor_nil]
  · exact .kept (fun hgrants => hgrants) False.elim fun permission => by rw [hreplaced, if_neg hnot]

/-- What becomes of the values of a role when a job is reloaded. -/
theorem InSync.valuesOutcome_of_job (h : caches.InSync due store)
    (hrows : rows.From touched store store' job) {ceilings : Ceilings}
    (hceilings : CeilingsOf touched store' job ceilings) (role : RoleId) :
    ValuesOutcome due touched (Event.jobCeilings job).Refreshes store store' caches.values
      (caches.values.replaceRows (caches.affected job rows)
        (rows.values.filterMap ((caches.knownAmong (rows.own job)).valueEntry
          fun job attr => ceilings[(job, attr)]?))).1 role := by
  have howner : ∀ entry ∈ rows.values.filterMap ((caches.knownAmong (rows.own job)).valueEntry
      fun job attr => ceilings[(job, attr)]?), ∃ role ∈ rows.roles, role.id = entry.1 := by
    intro entry hentry
    obtain ⟨row, hrow, hentry⟩ := List.mem_filterMap.mp hentry
    rw [Known.role_of_valueEntry hentry]
    exact hrows.values_of row hrow
  have hreplaced := PairTable.getElem?_replaceRows_of_named caches.values
    (fun entry hentry => by
      obtain ⟨role, hrole, hid⟩ := howner entry hentry
      exact hid ▸ hrows.mem_affected h.sound caches hrole) role
  rcases affected_cases h.roles h.sound hrows.roles role with ⟨row, hrow, rfl, rfl⟩ | ⟨haffected, hnot⟩ | ⟨hnot, hother⟩
  · have hrole := hrows.mem_roles h.sound hrow rfl
    obtain ⟨between, hbetween, -, hlisted⟩ := hrows.values row hrole
    refine .taken row hrow between hbetween (fun attr => ceilings[(row.job, attr)]?)
      (fun hnot attr => ?_) fun attr => ?_
    · obtain ⟨between, hbetween, -, htaken⟩ := hceilings.taken
      rw [htaken, hbetween.ceilingOf_eq (not_dueAfter_iff.mp hnot).1]
    · rw [hreplaced, if_pos (hrows.mem_affected h.sound caches hrole),
        Known.lastFor_valueEntries hlisted, jobOf_knownAmong (hrows.distinct h.sound)
          (hrows.own_of_mem h.sound hrole)]
      refine Option.bind_congr fun value _ => ?_
      exact h.map_kept (fun attr => ceilings[(row.job, attr)]?) attr value
  · refine .dropped hnot fun attr => ?_
    rw [hreplaced, if_pos haffected, hrows.freshRow_eq_nil h.sound howner hnot,
      PairTable.lastFor_nil]
  · exact .kept (fun hvalues => hvalues) False.elim hother fun attr => by
      rw [hreplaced, if_neg hnot]

/-- What becomes of the ceilings of a job when one job is reloaded. -/
theorem ceilingsOutcome_of_job {ceilings : Ceilings}
    (hceilings : CeilingsOf touched store' job ceilings) (job' : String) :
    CeilingsOutcome touched (Event.jobCeilings job).Refreshes store' caches.ceilings
      (caches.ceilings.replaceRows [job]
        (ceilings.toList.map fun entry => (entry.1.1, entry.1.2, entry.2))).1 job' := by
  have hreplaced := getElem?_replaceRows_ceilings caches.ceilings hceilings.own job'
  by_cases hjob : job' = job
  · subst hjob
    obtain ⟨between, hbetween, hkinds, htaken⟩ := hceilings.taken
    refine .taken between hbetween hkinds fun attr => ?_
    rw [hreplaced, if_pos rfl, htaken]
  · refine .kept (fun hfresh => hjob hfresh) fun attr => ?_
    rw [hreplaced, if_neg hjob]

/-- A job is reloaded without a fault, and then its ceilings are in sync, and so are the values of
its roles as far as these ceilings go. -/
theorem InSync.reloadJob (h : caches.InSync due store) (hdrift : Drift touched store store')
    (hrows : rows.From touched store store' job) :
    ∃ caches' report, caches.reloadJob job rows = .ok (caches', report) ∧
      caches'.InSync (DueAfter due touched (Event.jobCeilings job).Refreshes) store' := by
  obtain ⟨ceilings, hscreened, hceilings⟩ := h.screenCeilings hdrift hrows (rows.own job)
  obtain ⟨values, hvalues, hentries⟩ := h.screenValues hdrift hrows hceilings (rows.own job)
  have hchange : caches.reloadJob job rows = .ok (caches.commitJob job rows ceilings values) :=
    reloadJob_eq_ok_iff.mpr ⟨ceilings, values, hscreened, hvalues, rfl⟩
  refine ⟨_, _, hchange, ?_⟩
  exact {
    sound := hdrift.sound'
    kinds := hdrift.kinds h.kinds
    catalog := h.catalog.drift hdrift
    roles := by
      have hroles := h.roles.replaceJob (hrows.mem_own h.sound) h.sound (hrows.distinct h.sound)
      exact (hroles.drift hdrift).mono fun _ hdue => hdue.imp_right fun hdue => ⟨hdue, id⟩
    grants := h.grants.after hdrift (h.grantsOutcome_of_job hdrift hrows)
    values := hentries ▸ h.values.after hdrift (h.valuesOutcome_of_job hrows hceilings)
    ceilings := h.ceilings.after hdrift (ceilingsOutcome_of_job hceilings) }

end Job

end Caches

end GradedAccess
