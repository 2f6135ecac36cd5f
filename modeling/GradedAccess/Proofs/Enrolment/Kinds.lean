import GradedAccess.Proofs.Enrolment.Repetition

/-!
# Enrolling another kind

An enrolment gives a stored attribute the kind that is declared for it, and leaves the values and
the ceilings that are set for it as they are.  Those were of the kind the attribute had, and a full
load wants them to be of the kind it has.  So a store that could be loaded before an enrolment can
be loaded after it exactly if no attribute was given another kind while something was set for it
(`loads_after_enrolment_iff`).
-/

namespace GradedAccess

namespace MemoryStore

variable {store store' : MemoryStore} {registry : Registry} {report : EnrolmentReport}

/-- Whether a value or a ceiling is set for an attribute. -/
def Valued (store : MemoryStore) (id : AttributeId) : Prop :=
  (∃ (role : RoleId) (value : AttributeValue), store.values[(role, id)]? = some (some value)) ∨
    ∃ (job : String) (most : AttributeValue), store.ceilings[(job, id)]? = some (some most)

/-- Whether the attributes for which something is set are declared with the kinds they have. -/
def KeepsKinds (store : MemoryStore) (registry : Registry) : Prop :=
  ∀ definition ∈ registry.definitions, ∀ declared ∈ definition.attributes,
    ∀ (id : AttributeId) (row : Attribute), store.HasKey definition.guard declared.key id →
      store.attributes[id]? = some row → store.Valued id → row.kind = declared.kind

/-- An attribute that is declared is found under the same key after an enrolment. -/
theorem Enrolled.hasKey (h : store.Enrolled registry store' report) {guard key : String}
    {id : AttributeId} (hid : store.HasKey guard key id) : store'.HasKey guard key id := by
  obtain ⟨row, hrow, hkey, permission, hpermission, hguard⟩ := hid
  obtain ⟨row', hrow', -, hsame, hkey'⟩ := h.attr_kept hrow
  exact ⟨row', hrow', hkey'.trans hkey, permission, hsame ▸ h.permission_kept hpermission, hguard⟩

/-- If an enrolment leaves everything of the right kind, then nothing was set for an attribute that
was given another kind. -/
theorem Enrolled.keepsKinds (h : store.Enrolled registry store' report)
    (hkinds : store.WellKinded) (hkinds' : store'.WellKinded) : store.KeepsKinds registry := by
  intro definition hdefinition declared hdeclared id row hid hrow hvalued
  obtain ⟨row', hrow', -⟩ := h.attr_kept hrow
  obtain ⟨hkind, -⟩ := h.as_declared definition hdefinition declared hdeclared (h.hasKey hid) hrow'
  rcases hvalued with ⟨role, value, hvalue⟩ | ⟨job, most, hmost⟩
  · rw [← hkinds.value hvalue hrow, ← hkind]
    exact hkinds'.value (h.values ▸ hvalue) hrow'
  · rw [← hkinds.most hmost hrow, ← hkind]
    exact hkinds'.most (h.ceilings ▸ hmost) hrow'

/-- An attribute for which something is set has the kind it had. -/
theorem Enrolled.kind_eq (h : store.Enrolled registry store' report)
    (hkeeps : store.KeepsKinds registry) {id : AttributeId} {row row' : Attribute}
    (hrow : store.attributes[id]? = some row) (hrow' : store'.attributes[id]? = some row')
    (hvalued : store.Valued id) : row'.kind = row.kind := by
  by_cases hdeclared : ∃ definition ∈ registry.definitions, ∃ declared ∈ definition.attributes,
      store.HasKey definition.guard declared.key id
  · obtain ⟨definition, hdefinition, declared, hdeclared, hid⟩ := hdeclared
    rw [hkeeps definition hdefinition declared hdeclared id row hid hrow hvalued]
    exact (h.as_declared definition hdefinition declared hdeclared (h.hasKey hid) hrow').1
  · have hsame := h.attr_undeclared hrow fun definition hdefinition declared hmem hid =>
      hdeclared ⟨definition, hdefinition, declared, hmem, hid⟩
    rw [hsame, Option.some.injEq] at hrow'
    rw [hrow']

/-- Otherwise everything stays of the right kind. -/
theorem Enrolled.wellKinded (h : store.Enrolled registry store' report) (hsound : store.Sound)
    (hkinds : store.WellKinded) (hkeeps : store.KeepsKinds registry) : store'.WellKinded := by
  constructor
  · intro role id value row' hvalue hrow'
    rw [h.values] at hvalue
    obtain ⟨row, hrow⟩ :=
      mem_iff_exists.mp (hsound.value_known (mem_iff_exists.mpr ⟨_, hvalue⟩)).2
    rw [h.kind_eq hkeeps hrow hrow' (Or.inl ⟨role, value, hvalue⟩)]
    exact hkinds.value hvalue hrow
  · intro job id most row' hmost hrow'
    rw [h.ceilings] at hmost
    obtain ⟨row, hrow⟩ := mem_iff_exists.mp (hsound.ceiling_known (mem_iff_exists.mpr ⟨_, hmost⟩))
    rw [h.kind_eq hkeeps hrow hrow' (Or.inr ⟨job, most, hmost⟩)]
    exact hkinds.most hmost hrow

end MemoryStore

namespace Session

variable {limit : Duration} {registry : Registry} {report : EnrolmentReport}
variable {store store' : MemoryStore}

/-- Everything can be loaded if all that is set is of the right kind, whatever the caches hold. -/
theorem exists_loadAll_iff (hsound : store.Sound) (caches : Caches) :
    (∃ loading loaded, (MemoryStore.source limit).loadAll ⟨caches, store⟩ = (.ok loading, loaded)) ↔
      store.WellKinded := by
  have hrun : (MemoryStore.source limit).loadAll ⟨caches, store⟩ =
      Load.commit (fun caches => caches.load store.rows) ⟨caches, store⟩ :=
    Load.fetch_commit_of_ok (MemoryStore.source limit).loadAll_eq
      (MemoryStore.fetchAll_source limit store)
  rw [hrun, ← Caches.exists_load_iff hsound]
  constructor
  · rintro ⟨loading, loaded, hload⟩
    rcases hchange : caches.load store.rows with fault | ⟨after, loading⟩
    · rw [Load.commit, hchange] at hload
      cases hload
    · exact ⟨after, loading, rfl⟩
  · rintro ⟨after, loading, hchange⟩
    exact ⟨loading, ⟨after, store⟩, Load.commit_of_ok hchange⟩

/-- **What an enrolment leaves loadable.**  If everything could be loaded before an enrolment that
succeeds, then everything can be loaded after it if and only if the enrolment has not given another
kind to an attribute for which a value or a ceiling is set.  The store may not have run out of
numbers. -/
theorem loads_after_enrolment_iff (limit : Duration) (steps : List Step) (hbuilt : registry.Built)
    (hload : ∃ loading loaded,
      (MemoryStore.source limit).loadAll (reached limit steps) = (.ok loading, loaded))
    (henrol : (MemoryStore.source limit).enrol registry (reached limit steps).store =
      (.ok report, store'))
    (hroom : store'.next ≤ UInt64.size) (caches : Caches) :
    (∃ loading loaded,
        (MemoryStore.source limit).loadAll ⟨caches, store'⟩ = (.ok loading, loaded)) ↔
      (reached limit steps).store.KeepsKinds registry := by
  have hevolves := MemoryStore.evolves_of_run
    ((MemoryStore.respects_evolves limit).enrol (MemoryStore.evolves_fetch limit) registry) henrol
  have hsound := (consistent_reached (Nat.le_trans hevolves.next_le hroom)).sound
  have hkinds := (exists_loadAll_iff hsound _).mp hload
  have henrolled := Enrolment.enrolled_of_enrol hbuilt.sound hsound henrol hroom
  rw [exists_loadAll_iff (hevolves.sound hsound hroom)]
  exact ⟨henrolled.keepsKinds hkinds, henrolled.wellKinded hsound hkinds⟩

/-- The attribute that is created in `hiring`, declared as a list of jobs. -/
def reclassified : Registry where
  definitions :=
    [{ category := "citizens", name := "List"
       attributes := [{ key := "fields", kind := .jobList }] }]

/-- The fields a role may see were strings; once they are declared to be jobs, nothing can be
loaded. -/
theorem reclassified_cannot_be_loaded :
    let before := reached 0 hiring
    let enrolled := (MemoryStore.source 0).enrol reclassified before.store
    let loaded := (MemoryStore.source 0).loadAll ⟨before.caches, enrolled.2⟩
    reclassified.Built ∧ ((MemoryStore.source 0).loadAll before).1 = .ok ⟨5, 0, 0, 1⟩ ∧
      enrolled.1 = .ok ⟨0, 0, 1, []⟩ ∧ enrolled.2.next ≤ UInt64.size ∧
      loaded.1 = .error (.kindMismatch .stringList .jobList) ∧
      ¬before.store.KeepsKinds reclassified := by
  intro before enrolled loaded
  have hbuilt : reclassified.Built := by
    have hregister : Registry.register {} reclassified.definitions[0] = .ok reclassified := by
      decide +kernel
    exact .register .empty hregister
  have hload : ((MemoryStore.source 0).loadAll before).1 = .ok ⟨5, 0, 0, 1⟩ := by decide +kernel
  have henrolled : enrolled.1 = .ok ⟨0, 0, 1, []⟩ := by decide +kernel
  have hroom : enrolled.2.next ≤ UInt64.size := by decide +kernel
  have hfault : loaded.1 = .error (.kindMismatch .stringList .jobList) := by decide +kernel
  refine ⟨hbuilt, hload, henrolled, hroom, hfault, fun hkeeps => ?_⟩
  have hbefore := Fetch.run_eq (MemoryStore.source 0).loadAll before hload
  have hrun := Fetch.run_eq ((MemoryStore.source 0).enrol reclassified) before.store henrolled
  obtain ⟨loading, after, hloaded⟩ := (loads_after_enrolment_iff 0 hiring hbuilt
    ⟨_, _, hbefore⟩ hrun hroom before.caches).mpr hkeeps
  have hresult := congrArg Prod.fst hloaded
  rw [hfault] at hresult
  cases hresult

end Session

end GradedAccess
