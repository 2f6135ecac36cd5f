import GradedAccess.Proofs.Attribute.Tightening
import GradedAccess.Proofs.Resolution.Loaded
import GradedAccess.Proofs.Sync.Refresh

/-!
# Tightening a ceiling

A ceiling that is tightened never lets a job have more.  Once the job has been reloaded, every value
admits no more than it did, no guard name has been added to the flattened ones, and every permission
is decided as before.  For other jobs nothing has changed at all.

The argument has two halves.  In a store, a tighter ceiling changes the values that roles of the job
are left with, and only to ones that admit no more (`MemoryStore.rel_valueOf`).  In caches, answers
are made from values along a chain, and related values give related answers
(`Caches.Narrows.answersNoMore`).  Between the two stands the reload, after which the caches mirror
the store (`Caches.Mirrors.applyEvent`).
-/

namespace GradedAccess

open Std (ExtTreeSet)

/-- Of related words the first ones that say anything are related. -/
theorem rel_findSome? {α β γ : Type} {R : β → γ → Prop} {word : α → Option β}
    {word' : α → Option γ} {list : List α} (h : ∀ a ∈ list, Option.Rel R (word a) (word' a)) :
    Option.Rel R (list.findSome? word) (list.findSome? word') := by
  induction list with
  | nil => exact .none
  | cons a list ih =>
    rw [List.forall_mem_cons] at h
    obtain ⟨hfirst, hrest⟩ := h
    rw [List.findSome?_cons, List.findSome?_cons]
    generalize word a = said at hfirst ⊢
    generalize word' a = said' at hfirst ⊢
    cases hfirst with
    | some hrel => exact .some hrel
    | none => exact ih hrest

namespace Caches

variable {after before : Caches} {job job' : String} {grade : Grade}

/-- Whether caches differ from others in the values of roles of a job only, and these admit no
more. -/
structure Narrows (job : String) (after before : Caches) : Prop where
  catalog : after.catalog = before.catalog
  roles : after.roles = before.roles
  grants : after.grants = before.grants
  value : ∀ (role : RoleId) (attr : AttributeId),
    Option.Rel AttributeValue.AdmitsNoMore (after.value role attr) (before.value role attr)
  others : ∀ job' : String, job' ≠ job → ∀ grade : Grade,
    ∀ role ∈ before.roles.chain job' grade, ∀ attr : AttributeId,
      after.value role attr = before.value role attr

/-- Whether caches answer as others do, except that a job may have less of an attribute. -/
structure AnswersNoMore (job : String) (after before : Caches) : Prop where
  can : ∀ (identity : Identity) (category name : String),
    after.can identity category name = before.can identity category name
  effective : ∀ (job' : String) (grade : Grade),
    after.effective job' grade = before.effective job' grade
  /-- An attribute has a value if it had one, and the value admits no more. -/
  attr : ∀ (identity : Identity) (category name key : String), identity.job = job →
    identity.superuser = false → ∃ answer earlier,
      after.attrOf identity category name key = .ok answer ∧
      before.attrOf identity category name key = .ok earlier ∧
      Option.Rel AttributeValue.AdmitsNoMore answer earlier
  attr_others : ∀ (identity : Identity) (category name key : String),
    identity.job ≠ job ∨ identity.superuser = true →
      after.attrOf identity category name key = before.attrOf identity category name key
  flattened : ∀ (grade : Grade) (entry : String),
    entry ∈ after.flattened job grade → entry ∈ before.flattened job grade
  flattened_others : ∀ job' : String, job' ≠ job → ∀ grade : Grade,
    after.flattened job' grade = before.flattened job' grade

/-! ## From values to answers -/

/-- A value that admits no more makes up no further guard names. -/
theorem entryGuards_subset (caches : Caches) (attr : AttributeId) {value value' : AttributeValue}
    (h : value.AdmitsNoMore value') :
    caches.entryGuards attr value ⊆ caches.entryGuards attr value' := by
  rw [entryGuards, entryGuards]
  split
  · exact List.Subset.refl _
  · split
    · exact List.Subset.refl _
    · exact List.map_subset _ h.flat_subset

namespace Narrows

theorem entryGuards_eq (h : after.Narrows job before) (attr : AttributeId)
    (value : AttributeValue) : after.entryGuards attr value = before.entryGuards attr value := by
  rw [entryGuards, entryGuards, h.catalog]

theorem permissionId_eq (h : after.Narrows job before) (category name : String) :
    after.permissionId category name = before.permissionId category name := by
  rw [permissionId, permissionId, h.catalog]

theorem resolve_eq (h : after.Narrows job before) (job' : String) (grade : Grade)
    (permission : PermissionId) :
    after.resolve job' grade permission = before.resolve job' grade permission := by
  simp only [resolve, grant, h.roles, h.grants]

theorem can_eq (h : after.Narrows job before) (identity : Identity) (category name : String) :
    after.can identity category name = before.can identity category name := by
  have hresolve : after.resolve identity.job identity.grade =
      before.resolve identity.job identity.grade := funext (h.resolve_eq _ _)
  rw [can, can, h.permissionId_eq, hresolve]

theorem effective_eq (h : after.Narrows job before) (job' : String) (grade : Grade) :
    after.effective job' grade = before.effective job' grade := by
  have hresolve : after.resolve job' grade = before.resolve job' grade :=
    funext (h.resolve_eq _ _)
  simp only [effective, hresolve, h.catalog, h.roles, h.grants]

theorem rel_resolveValue (h : after.Narrows job before) (job' : String) (grade : Grade)
    (attr : AttributeId) :
    Option.Rel AttributeValue.AdmitsNoMore (after.resolveValue job' grade attr)
      (before.resolveValue job' grade attr) := by
  rw [resolveValue, resolveValue, h.roles]
  exact rel_findSome? fun role _ => h.value role attr

theorem resolveValue_eq (h : after.Narrows job before) (hjob : job' ≠ job) (grade : Grade)
    (attr : AttributeId) :
    after.resolveValue job' grade attr = before.resolveValue job' grade attr := by
  have hrel : Option.Rel (· = ·) (after.resolveValue job' grade attr)
      (before.resolveValue job' grade attr) := by
    rw [resolveValue, resolveValue, h.roles]
    refine rel_findSome? fun role hrole => ?_
    rw [h.others job' hjob grade role (List.mem_reverse.mp hrole) attr]
    cases before.value role attr with
    | none => exact .none
    | some value => exact .some rfl
  generalize after.resolveValue job' grade attr = answer at hrel ⊢
  generalize before.resolveValue job' grade attr = earlier at hrel ⊢
  cases hrel with
  | none => rfl
  | some heq => rw [heq]

/-- What an attribute has for an identity admits no more than what it had. -/
theorem rel_attrOf (h : after.Narrows job before) {identity : Identity}
    {category name key : String} {earlier : Option AttributeValue}
    (hsuper : identity.superuser = false)
    (hearlier : before.attrOf identity category name key = .ok earlier) :
    ∃ answer, after.attrOf identity category name key = .ok answer ∧
      Option.Rel AttributeValue.AdmitsNoMore answer earlier := by
  simp only [attrOf, h.permissionId_eq, h.catalog, hsuper, Bool.false_eq_true, if_false]
    at hearlier ⊢
  split at hearlier
  · cases hearlier
    exact ⟨none, rfl, .none⟩
  · next attr _ =>
    have hrel := h.rel_resolveValue identity.job identity.grade attr.id
    generalize after.resolveValue identity.job identity.grade attr.id = answer at hrel ⊢
    generalize before.resolveValue identity.job identity.grade attr.id = found at hrel hearlier
    cases hrel with
    | none =>
      cases hearlier
      exact ⟨none, rfl, .none⟩
    | some hmore =>
      obtain ⟨checked, hchecked, hearlier⟩ := bind_eq_ok_iff.mp hearlier
      cases hearlier
      obtain ⟨hkind, rfl⟩ := AttributeValue.orDefault_eq_ok_iff.mp hchecked
      refine ⟨_, bind_eq_ok_iff.mpr ⟨_, AttributeValue.orDefault_eq_ok_iff.mpr ⟨?_, rfl⟩, rfl⟩,
        .some hmore⟩
      rintro _ ⟨⟩
      exact hmore.kind_eq.trans (hkind _ rfl)

theorem attrOf_eq (h : after.Narrows job before) {identity : Identity}
    (hother : identity.job ≠ job ∨ identity.superuser = true) (category name key : String) :
    after.attrOf identity category name key = before.attrOf identity category name key := by
  rw [attrOf, attrOf, h.permissionId_eq, h.catalog]
  split
  · rfl
  · next attr _ =>
    rcases hother with hjob | hsuper
    · rw [h.resolveValue_eq hjob]
    · rw [if_pos hsuper, if_pos hsuper]

theorem mem_flattened (h : after.Narrows job before) {entry : String}
    (hentry : entry ∈ after.flattened job' grade) : entry ∈ before.flattened job' grade := by
  rw [mem_flattened_iff] at hentry ⊢
  obtain ⟨role, hrole, attr, value, hvalue, hentry⟩ := hentry
  have hrel := h.value role attr
  rw [hvalue] at hrel
  rw [h.entryGuards_eq] at hentry
  generalize hfound : before.value role attr = found at hrel
  cases hrel with
  | some hmore =>
    exact ⟨role, h.roles ▸ hrole, attr, _, hfound, entryGuards_subset before attr hmore hentry⟩

theorem flattened_eq (h : after.Narrows job before) (hjob : job' ≠ job) (grade : Grade) :
    after.flattened job' grade = before.flattened job' grade := by
  refine ExtTreeSet.ext_mem fun entry => ⟨h.mem_flattened, fun hentry => ?_⟩
  rw [mem_flattened_iff] at hentry ⊢
  obtain ⟨role, hrole, attr, value, hvalue, hentry⟩ := hentry
  rw [← h.others job' hjob grade role hrole] at hvalue
  rw [← h.entryGuards_eq] at hentry
  exact ⟨role, h.roles.symm ▸ hrole, attr, value, hvalue, hentry⟩

/-- Caches with narrower values answer no more, if the others answer at all. -/
theorem answersNoMore (h : after.Narrows job before)
    (hanswers : ∀ (identity : Identity) (category name key : String),
      ∃ answer, before.attrOf identity category name key = .ok answer) :
    after.AnswersNoMore job before where
  can := h.can_eq
  effective := h.effective_eq
  attr identity category name key _ hsuper := by
    obtain ⟨earlier, hearlier⟩ := hanswers identity category name key
    obtain ⟨answer, hanswer, hrel⟩ := h.rel_attrOf hsuper hearlier
    exact ⟨answer, earlier, hanswer, hearlier, hrel⟩
  attr_others identity category name key hother := h.attrOf_eq hother category name key
  flattened _ _ := h.mem_flattened
  flattened_others _ hjob := h.flattened_eq hjob

end Narrows

end Caches

/-! ## From ceilings to values -/

namespace MemoryStore

section SetCeiling

variable {store : MemoryStore} {job : String} {attr : AttributeId} {row : Attribute}
  {most : Option AttributeValue}

/-- A ceiling can be set for an attribute that exists. -/
theorem setCeiling_of_mem (job : String) (hmem : attr ∈ store.attributes)
    (most : Option AttributeValue) :
    store.setCeiling job attr most =
      (.ok (), { store with ceilings := store.ceilings.insert (job, attr) most }) := by
  rw [setCeiling, ensureAttribute_eq_ok_iff.mpr hmem]
  rfl

/-- The values of roles of other jobs do not depend on a ceiling. -/
theorem valueOf_of_other_job {owner : Role} {role : RoleId}
    (howner : store.roles[role]? = some owner) (hjob : owner.job ≠ job) (attr' : AttributeId) :
    valueOf { store with ceilings := store.ceilings.insert (job, attr) most } role attr' =
      store.valueOf role attr' := by
  have hkey : (owner.job, attr') ≠ (job, attr) := fun heq => hjob (Prod.mk.inj heq).1
  simp only [valueOf, ceilingOf, howner, Option.bind_some, getElem?_insert_of_ne _ _ hkey]

variable (hrow : store.attributes[attr]? = some row)
  (htight : LimitTightens AttributeValue.Tightens (some (AttributeValue.orEmpty row.kind most))
    (store.ceilingOf job attr))
include hrow htight

/-- When one ceiling is tightened, no ceiling gets looser. -/
theorem tightens_ceilingOf (job' : String) (attr' : AttributeId) :
    LimitTightens AttributeValue.Tightens
      (ceilingOf { store with ceilings := store.ceilings.insert (job, attr) most } job' attr')
      (store.ceilingOf job' attr') := by
  by_cases hkey : (job', attr') = (job, attr)
  · obtain ⟨rfl, rfl⟩ := Prod.mk.inj hkey
    have hset : ceilingOf { store with ceilings := store.ceilings.insert (job', attr') most } job'
        attr' = some (AttributeValue.orEmpty row.kind most) := by
      simp [ceilingOf, hrow]
    rw [hset]
    exact htight
  · have hsame : ceilingOf { store with ceilings := store.ceilings.insert (job, attr) most } job'
        attr' = store.ceilingOf job' attr' := by
      simp only [ceilingOf, getElem?_insert_of_ne _ _ hkey]
    rw [hsame]
    exact .refl AttributeValue.Tightens.refl _

/-- When one ceiling is tightened, no role is left with more. -/
theorem rel_valueOf (role : RoleId) (attr' : AttributeId) :
    Option.Rel AttributeValue.AdmitsNoMore
      (valueOf { store with ceilings := store.ceilings.insert (job, attr) most } role attr')
      (store.valueOf role attr') := by
  rw [valueOf, valueOf]
  cases store.values[(role, attr')]? with
  | none => exact .none
  | some given =>
    cases store.roles[role]? with
    | none => exact .none
    | some owner =>
      cases store.attributes[attr']? with
      | none => exact .none
      | some found =>
        refine .some (AttributeValue.admitsNoMore_limited _ _ ?_)
        exact tightens_ceilingOf hrow htight owner.job attr'

end SetCeiling

end MemoryStore

namespace Caches

variable {caches before after : Caches} {store : MemoryStore} {job : String} {attr : AttributeId}
  {row : Attribute} {most : Option AttributeValue}

/-- Caches that mirror a store always answer when they are asked for an attribute. -/
theorem Mirrors.exists_attrOf (h : caches.Mirrors store) (hsound : store.Sound)
    (hkinds : store.WellKinded) (identity : Identity) (category name key : String) :
    ∃ answer, caches.attrOf identity category name key = .ok answer := by
  have hanswers := h.answers hsound hkinds
  by_cases hunknown : ∀ (id : AttributeId) (row : Attribute) (permission : Permission),
      store.attributes[id]? = some row → row.key = key →
      store.permissions[row.permission]? = some permission →
      permission.guard ≠ guardName category name
  · exact ⟨none, hanswers.attr_unknown identity category name key hunknown⟩
  · push Not at hunknown
    obtain ⟨id, row, permission, hrow, hkey, hpermission, hguard⟩ := hunknown
    cases hsuper : identity.superuser with
    | true =>
      rw [attrOf]
      split
      · exact ⟨none, rfl⟩
      · exact ⟨_, if_pos hsuper⟩
    | false =>
      obtain ⟨given, -, hgiven⟩ := hanswers.attr identity category name key hsuper id row
        permission hrow hkey hpermission hguard
      cases given with
      | none => exact ⟨none, hgiven⟩
      | some given =>
        obtain ⟨value, -, hvalue⟩ := hgiven
        exact ⟨some value, hvalue⟩

/-- Caches that mirror a store with a tightened ceiling have narrower values for the job. -/
theorem Mirrors.narrows (h : before.Mirrors store) (hsound : store.Sound)
    (hrow : store.attributes[attr]? = some row)
    (htight : LimitTightens AttributeValue.Tightens (some (AttributeValue.orEmpty row.kind most))
      (store.ceilingOf job attr))
    (h' : after.Mirrors { store with ceilings := store.ceilings.insert (job, attr) most }) :
    after.Narrows job before := by
  -- but for values and ceilings, the two stores are the same
  have hmirrors : Mirrors { after with values := before.values, ceilings := before.ceilings }
      store := {
    catalog := ⟨h'.catalog.permissions, h'.catalog.guards, h'.catalog.attributes, h'.catalog.keys⟩
    roles := h'.roles
    slots := h'.slots
    grants := h'.grants
    values := h.values
    ceilings := h.ceilings }
  have hsame := hmirrors.unique h
  refine ⟨(congrArg Caches.catalog hsame :), (congrArg Caches.roles hsame :),
    (congrArg Caches.grants hsame :), fun role attr' => ?_,
    fun job' hjob grade role hrole attr' => ?_⟩
  · rw [h.values, h'.values]
    exact MemoryStore.rel_valueOf hrow htight role attr'
  · obtain ⟨owner, ⟨howner, rfl, -⟩, rfl⟩ := (h.mem_chain_iff hsound).mp hrole
    rw [h.values, h'.values]
    exact MemoryStore.valueOf_of_other_job howner hjob attr'

end Caches

namespace Session

/-- **Tightening a ceiling never grants more.**  The caches are as a full load leaves them, and the
ceiling of a job is replaced by one that is not looser, or set where there was none.  Then the job
can be reloaded; and what the caches answer afterwards is no more for this job, and for everyone
else what they answered before. -/
theorem answersNoMore_of_tightened (limit : Duration) (steps : List Step)
    (hroom : (reached limit steps).store.next ≤ UInt64.size) {report : Report}
    {loaded : Loaded MemoryStore}
    (hload : (MemoryStore.source limit).loadAll (reached limit steps) = (.ok report, loaded))
    (job : String) {attr : AttributeId} {row : Attribute}
    (hrow : loaded.store.attributes[attr]? = some row) {most : Option AttributeValue}
    (hkind : ∀ value ∈ most, value.kind = row.kind)
    (htight : LimitTightens AttributeValue.Tightens (some (AttributeValue.orEmpty row.kind most))
      (loaded.store.ceilingOf job attr)) :
    ∃ store report after,
      loaded.store.setCeiling job attr most = (.ok (), store) ∧
      (MemoryStore.source limit).applyEvent (.jobCeilings job) ⟨loaded.caches, store⟩ =
        (.ok report, after) ∧
      after.caches.AnswersNoMore job loaded.caches := by
  have hconsistent := consistent_reached hroom
  have hstore := store_loadAll limit (reached limit steps)
  rw [hload] at hstore
  obtain ⟨hmirrors, hkinds⟩ := mirrors_of_loadAll hconsistent hload
  have hsound := hconsistent.sound
  rw [← hstore] at hroom hmirrors hkinds hsound
  have hset := MemoryStore.setCeiling_of_mem job (mem_iff_exists.mpr ⟨row, hrow⟩) most
  have hafter : loaded.store.after (.setCeiling job attr most) =
      { loaded.store with ceilings := loaded.store.ceilings.insert (job, attr) most } :=
    congrArg Prod.snd hset
  have hfits : Operation.Fits loaded.store (.setCeiling job attr most) := by
    intro value hvalue found hfound
    obtain rfl := Option.some.inj (hrow.symm.trans hfound)
    exact hkind value hvalue
  have hannounced : ∀ part, Operation.Touches loaded.store (.setCeiling job attr most) part →
      (Event.jobCeilings job).Refreshes part := by
    intro part htouches
    rw [Operation.Touches, Operation.touched, Option.mem_def, Option.ite_none_left_eq_some]
      at htouches
    obtain ⟨-, ⟨⟩⟩ := htouches
    exact rfl
  obtain ⟨report, after, hrun, -, hmirrors'⟩ :=
    hmirrors.applyEvent hsound hkinds (hafter ▸ hroom) hfits limit hannounced
  rw [hafter] at hrun hmirrors'
  refine ⟨_, report, after, hset, hrun, ?_⟩
  exact (hmirrors.narrows hsound hrow htight hmirrors').answersNoMore
    (hmirrors.exists_attrOf hsound hkinds)

/-- When the police may no longer have the names of citizens, officers are left with nothing of the
fields they could see, although they still may list the citizens. -/
theorem answersNoMore_for_police :
    let steps := hiring ++ [.operation (.setCeiling "police" ⟨2⟩
      (some (.strings ⟨["name", "phone", "address"]⟩)))]
    let loaded := ((MemoryStore.source 0).loadAll (reached 0 steps)).2
    let officer : Identity := { user := 1, job := "police", grade := 6 }
    loaded.caches.can officer "citizens" "List" = true ∧
      loaded.caches.attrOf officer "citizens" "List" "fields" =
        .ok (some (.strings ⟨["name"]⟩)) ∧
      ∃ store report after,
        loaded.store.setCeiling "police" ⟨2⟩ (some (.strings ⟨["phone", "address"]⟩)) =
          (.ok (), store) ∧
        (MemoryStore.source 0).applyEvent (.jobCeilings "police") ⟨loaded.caches, store⟩ =
          (.ok report, after) ∧
        after.caches.AnswersNoMore "police" loaded.caches := by
  intro steps loaded officer
  have hreport : ∃ report, ((MemoryStore.source 0).loadAll (reached 0 steps)).1 = .ok report :=
    ⟨⟨6, 0, 0, 1⟩, by decide +kernel⟩
  obtain ⟨report, hreport⟩ := hreport
  have hceiling : loaded.store.ceilingOf "police" ⟨2⟩ =
      some (.strings ⟨["name", "phone", "address"]⟩) := by decide +kernel
  have hrow : loaded.store.attributes[(⟨2⟩ : AttributeId)]? =
      some ⟨⟨2⟩, ⟨1⟩, "fields", .stringList, .strings ⟨["name", "phone"]⟩⟩ := by decide +kernel
  refine ⟨by decide +kernel, by decide +kernel, ?_⟩
  refine answersNoMore_of_tightened 0 steps (by decide +kernel) (Prod.ext hreport rfl) "police"
    hrow (by rintro _ ⟨⟩; rfl) ?_
  rw [hceiling]
  rintro _ ⟨⟩
  exact ⟨_, rfl, .of_sublist (by decide)⟩

end Session

end GradedAccess
