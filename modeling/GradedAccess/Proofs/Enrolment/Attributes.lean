import GradedAccess.Proofs.Enrolment.Permissions

/-!
# Enrolling attributes

The second half of an enrolment goes through the declared attributes.  Each is created, left alone
or redefined, and in all three cases the store has the declared row under some number afterwards
(`Files`): under a new number, or under the number of the attribute that had the key.  So a step
is one insertion, and the three cases only differ in what is counted.

Stored attributes are looked up in a table that is filled once.  It says the truth about the
declared attributes that are still to come, because no permission and key is declared twice, and
that is the invariant of the loop (`Finds`).
-/

namespace GradedAccess

/-- The row of a declared attribute of a permission, under a number. -/
def AttributeDefinition.row (declared : AttributeDefinition) (id : AttributeId)
    (permission : PermissionId) : Attribute :=
  ⟨id, permission, declared.key, declared.kind, declared.values⟩

namespace MemoryStore

variable {store store' : MemoryStore} {permission : PermissionId} {declared : AttributeDefinition}

/-- Whether an attribute is the one a store has under a permission and a key. -/
def Keyed (store : MemoryStore) (permission : PermissionId) (key : String) (attr : Attribute) :
    Prop :=
  store.attributes[attr.id]? = some attr ∧ attr.permission = permission ∧ attr.key = key

/-- The store with a declared attribute of a permission filed under a number. -/
def withAttribute (store : MemoryStore) (id : AttributeId) (permission : PermissionId)
    (declared : AttributeDefinition) : MemoryStore :=
  { store with attributes := store.attributes.insert id (declared.row id permission) }

theorem make?_declared {id : AttributeId} {row : Attribute}
    (h : Attribute.make? id permission declared.key declared.kind declared.valid = .ok row) :
    row = declared.row id permission := by
  rw [Attribute.make?] at h
  split at h
  · cases h
  · obtain ⟨valid, hvalid, hrow⟩ := bind_eq_ok_iff.mp h
    obtain ⟨-, rfl⟩ := AttributeValue.orDefault_eq_ok_iff.mp hvalid
    exact (Except.ok.inj hrow).symm

/-- A declared attribute that is created is filed under the next number. -/
theorem createAttribute_eq_ok {row : Attribute}
    (h : store.createAttribute ⟨permission, declared.key, declared.kind, declared.valid⟩ =
      (.ok row, store')) :
    store' = store.advance.withAttribute store.nextId permission declared := by
  rw [createAttribute] at h
  cases hfree : store.ensureFreeKey permission declared.key with
  | error fault =>
    rw [hfree] at h
    cases h
  | ok _ =>
    rw [hfree] at h
    dsimp only at h
    cases hmake : Attribute.make? store.nextId permission declared.key declared.kind
        declared.valid with
    | error fault =>
      rw [hmake] at h
      cases h
    | ok made =>
      rw [hmake] at h
      cases h
      rw [make?_declared hmake]
      rfl

/-- An attribute that is made to agree with a declaration stays under its number. -/
theorem redefine_eq_ok {attr : Attribute} (hattr : store.Keyed permission declared.key attr)
    (h : store.redefine attr.id declared.kind declared.valid = (.ok (), store')) :
    store' = store.withAttribute attr.id permission declared := by
  obtain ⟨hrow, rfl, hkey⟩ := hattr
  rw [redefine, hrow] at h
  dsimp only at h
  rw [hkey] at h
  cases hmake : Attribute.make? attr.id attr.permission declared.key declared.kind
      declared.valid with
  | error fault =>
    rw [hmake] at h
    cases h
  | ok made =>
    rw [hmake] at h
    cases h
    rw [make?_declared hmake]
    rfl

/-- The attributes a store has that are different, or gone, in another. -/
def redefined (store store' : MemoryStore) : Std.ExtTreeMap AttributeId Attribute :=
  store.attributes.filter fun id attr => store'.attributes[id]? ≠ some attr

end MemoryStore

namespace Enrolment

open MemoryStore

variable {store between store' : MemoryStore} {limit : Duration} {permission : PermissionId}
variable {declared : AttributeDefinition} {report report' : EnrolmentReport} {id : AttributeId}
variable {stored : PairTable PermissionId String Attribute}
variable {items : List (PermissionId × AttributeDefinition)}

/-! ## One attribute -/

/-- Whether a store comes about by filing a declared attribute under a number, either a new one or
the number of the attribute that has its key. -/
structure Files (permission : PermissionId) (declared : AttributeDefinition) (id : AttributeId)
    (store store' : MemoryStore) : Prop where
  attributes : store'.attributes = store.attributes.insert id (declared.row id permission)
  /-- Nothing but the attributes changes. -/
  frame : store' = { store with attributes := store'.attributes, next := store'.next }
  own : ∀ row : Attribute, store.attributes[id]? = some row →
    row.permission = permission ∧ row.key = declared.key

theorem Files.self (h : Files permission declared id store store') :
    store'.attributes[id]? = some (declared.row id permission) := by
  rw [h.attributes, Std.ExtTreeMap.getElem?_insert_self]

theorem Files.of_ne (h : Files permission declared id store store') {id' : AttributeId}
    (hne : id' ≠ id) : store'.attributes[id']? = store.attributes[id']? := by
  rw [h.attributes, getElem?_insert_of_ne _ _ hne]

/-- Attributes with other keys are where they were. -/
theorem Files.keyed_iff (h : Files permission declared id store store')
    {permission' : PermissionId} {key : String} {attr : Attribute}
    (hne : (permission, declared.key) ≠ (permission', key)) :
    store'.Keyed permission' key attr ↔ store.Keyed permission' key attr := by
  have hother : ∀ row : Attribute, row.permission = permission' ∧ row.key = key →
      ¬(row.permission = permission ∧ row.key = declared.key) := by
    rintro row ⟨rfl, rfl⟩ ⟨hpermission, hkey⟩
    exact hne (Prod.ext hpermission.symm hkey.symm)
  rw [Keyed, Keyed]
  constructor
  · rintro ⟨hrow, hattr⟩
    have hid : attr.id ≠ id := by
      rintro rfl
      rw [h.self, Option.some.injEq] at hrow
      exact hother attr hattr (hrow ▸ ⟨rfl, rfl⟩)
    exact ⟨(h.of_ne hid).symm.trans hrow, hattr⟩
  · rintro ⟨hrow, hattr⟩
    have hid : attr.id ≠ id := by
      rintro rfl
      exact hother attr hattr (h.own attr hrow)
    exact ⟨(h.of_ne hid).trans hrow, hattr⟩

/-- Whether a stored attribute is as it is declared. -/
theorem agrees_eq_ok {attr : Attribute} {agreeing : Bool}
    (hpermission : attr.permission = permission) (hkey : attr.key = declared.key)
    (h : agrees declared attr = .ok agreeing) :
    agreeing = true ↔ declared.row attr.id permission = attr := by
  obtain ⟨valid, hvalid, hagrees⟩ := bind_eq_ok_iff.mp h
  obtain ⟨-, rfl⟩ := AttributeValue.orDefault_eq_ok_iff.mp hvalid
  obtain rfl := Except.ok.inj hagrees
  obtain ⟨id, _, _, kind, valid⟩ := attr
  subst hpermission hkey
  simp only [AttributeDefinition.row, AttributeDefinition.values, Bool.and_eq_true,
    decide_eq_true_eq, Attribute.mk.injEq, true_and]
  exact and_congr eq_comm eq_comm

/-- Filing an attribute as it is filed already changes nothing. -/
theorem Files.keep (h : store.Keyed permission declared.key (declared.row id permission)) :
    Files permission declared id store store := by
  refine ⟨?_, rfl, fun row hrow => ?_⟩
  · apply Std.ExtTreeMap.ext_getElem?
    intro id'
    by_cases hid : id' = id
    · rw [hid, Std.ExtTreeMap.getElem?_insert_self]
      exact h.1
    · rw [getElem?_insert_of_ne _ _ hid]
  · obtain rfl := Option.some.inj (h.1.symm.trans hrow)
    exact ⟨rfl, rfl⟩

/-- An attribute is filed anew under the number it has. -/
theorem Files.redefine {attr : Attribute} (h : store.Keyed permission declared.key attr) :
    Files permission declared attr.id store
      (store.withAttribute attr.id permission declared) := by
  refine ⟨rfl, rfl, fun row hrow => ?_⟩
  obtain rfl := Option.some.inj (h.1.symm.trans hrow)
  exact h.2

/-- An attribute is filed under the next number. -/
theorem Files.create (hid : store.nextId ∉ store.attributes) :
    Files permission declared store.nextId store
      (store.advance.withAttribute store.nextId permission declared) :=
  ⟨rfl, rfl, fun row hrow => absurd (mem_iff_exists.mpr ⟨row, hrow⟩) hid⟩

/-- Whether a report counts the filing of a declared attribute under a number: as created if the
number is new, as updated if the attribute was different, and not at all if it was the same. -/
def Counts (permission : PermissionId) (declared : AttributeDefinition) (id : AttributeId)
    (store : MemoryStore) (report report' : EnrolmentReport) : Prop :=
  id ∉ store.attributes ∧
      report' = { report with createdAttributes := report.createdAttributes + 1 } ∨
    ∃ attr, store.attributes[id]? = some attr ∧
      report' = if declared.row id permission = attr then report else
        { report with updatedAttributes := report.updatedAttributes + 1 }

/-- **One step of the loop.**  The declared attribute is filed under a new number and counted as
created, or under the number it has; it is counted as updated then if it was different. -/
theorem enrolAttribute_ok (hsound : store.Sound)
    (hfind : ∀ attr, stored[(permission, declared.key)]? = some attr ↔
      store.Keyed permission declared.key attr)
    (hrun : enrolAttribute (MemoryStore.source limit) stored report permission declared store =
      (.ok report', store')) (hroom : store'.next ≤ UInt64.size) :
    ∃ id, Files permission declared id store store' ∧
      Counts permission declared id store report report' := by
  rw [enrolAttribute] at hrun
  cases hstored : stored[(permission, declared.key)]? with
  | none =>
    rw [hstored] at hrun
    obtain ⟨row, between, hcreate, hpure⟩ := Fetch.bind_eq_ok_iff.mp hrun
    cases hpure
    obtain rfl := createAttribute_eq_ok hcreate
    have hid : store.nextId ∉ store.attributes := nextId_notMem hsound.attribute_given hroom
    exact ⟨store.nextId, .create hid, Or.inl ⟨hid, rfl⟩⟩
  | some attr =>
    rw [hstored] at hrun
    have hkeyed := (hfind attr).mp hstored
    obtain ⟨agreeing, between, hchecked, hrest⟩ := Fetch.bind_eq_ok_iff.mp hrun
    obtain ⟨hagrees, rfl⟩ : agrees declared attr = .ok agreeing ∧ store = between := by
      cases hagrees : agrees declared attr with
      | error fault =>
        rw [hagrees] at hchecked
        cases hchecked
      | ok agreeing =>
        rw [hagrees] at hchecked
        cases hchecked
        exact ⟨rfl, rfl⟩
    have hsame := agrees_eq_ok hkeyed.2.1 hkeyed.2.2 hagrees
    cases agreeing with
    | true =>
      cases hrest
      have hrow := hsame.mp rfl
      refine ⟨attr.id, .keep (hrow.symm ▸ hkeyed), Or.inr ⟨attr, hkeyed.1, ?_⟩⟩
      rw [if_pos hrow]
    | false =>
      obtain ⟨_, after, hredefine, hpure⟩ := Fetch.bind_eq_ok_iff.mp hrest
      cases hpure
      obtain rfl := redefine_eq_ok hkeyed hredefine
      refine ⟨attr.id, .redefine hkeyed, Or.inr ⟨attr, hkeyed.1, ?_⟩⟩
      rw [if_neg fun hrow => Bool.false_ne_true (hsame.mpr hrow)]

/-! ## What is counted -/

theorem getElem?_redefined (store store' : MemoryStore) (id : AttributeId) :
    (store.redefined store')[id]? =
      store.attributes[id]?.filter fun attr => store'.attributes[id]? ≠ some attr :=
  Std.ExtTreeMap.getElem?_filter'

/-- An attribute that is there as it was is not among those that are different. -/
theorem getElem?_redefined_self {attr : Attribute} (hattr : store.attributes[id]? = some attr)
    (hlast : store'.attributes[id]? = some attr) : (store.redefined store')[id]? = none := by
  rw [getElem?_redefined, hattr, hlast]
  simp

theorem Files.getElem?_redefined_of_ne (h : Files permission declared id store between)
    {id' : AttributeId} (hne : id' ≠ id) :
    (between.redefined store')[id']? = (store.redefined store')[id']? := by
  rw [getElem?_redefined, getElem?_redefined, h.of_ne hne]

/-- A step that files a row where there was none, or the same, does not count. -/
theorem Files.redefined_eq (h : Files permission declared id store between)
    (hlast : store'.attributes[id]? = some (declared.row id permission))
    (hsame : ∀ attr, store.attributes[id]? = some attr → declared.row id permission = attr) :
    store.redefined store' = between.redefined store' := by
  apply Std.ExtTreeMap.ext_getElem?
  intro id'
  by_cases hid : id' = id
  · subst hid
    rw [getElem?_redefined_self h.self hlast]
    cases hattr : store.attributes[id']? with
    | none => rw [getElem?_redefined, hattr, Option.filter_none]
    | some attr => exact getElem?_redefined_self hattr (hsame attr hattr ▸ hlast)
  · exact (h.getElem?_redefined_of_ne hid).symm

/-- A step that files another row counts once. -/
theorem Files.redefined_insert (h : Files permission declared id store between) {attr : Attribute}
    (hlast : store'.attributes[id]? = some (declared.row id permission))
    (hattr : store.attributes[id]? = some attr) (hne : declared.row id permission ≠ attr) :
    store.redefined store' = (between.redefined store').insert id attr := by
  apply Std.ExtTreeMap.ext_getElem?
  intro id'
  by_cases hid : id' = id
  · subst hid
    rw [getElem?_redefined, hattr, hlast, Std.ExtTreeMap.getElem?_insert_self,
      Option.filter_some_pos (by simpa using hne)]
  · rw [getElem?_insert_of_ne _ _ hid]
    exact (h.getElem?_redefined_of_ne hid).symm

/-- The counters go up by what a step adds to the attributes that are there, and by what it takes
from those that are going to be different in the end. -/
theorem Counts.counters (h : Counts permission declared id store report report')
    (hfiles : Files permission declared id store between)
    (hlast : store'.attributes[id]? = some (declared.row id permission)) :
    between.attributes.size + report.createdAttributes =
        store.attributes.size + report'.createdAttributes ∧
      report'.updatedAttributes + (between.redefined store').size =
        report.updatedAttributes + (store.redefined store').size := by
  rw [hfiles.attributes]
  rcases h with ⟨hid, rfl⟩ | ⟨attr, hattr, rfl⟩
  · have hsame : store.redefined store' = between.redefined store' :=
      hfiles.redefined_eq hlast fun attr hattr =>
        absurd (mem_iff_exists.mpr ⟨attr, hattr⟩) hid
    have hsize : (store.attributes.insert id (declared.row id permission)).size =
        store.attributes.size + 1 := Std.ExtTreeMap.size_insert.trans (if_neg hid)
    rw [hsize, hsame]
    exact ⟨Nat.add_right_comm _ _ _, rfl⟩
  · have hid : id ∈ store.attributes := mem_iff_exists.mpr ⟨attr, hattr⟩
    have hsize : (store.attributes.insert id (declared.row id permission)).size =
        store.attributes.size := Std.ExtTreeMap.size_insert.trans (if_pos hid)
    rw [hsize]
    by_cases hrow : declared.row id permission = attr
    · have hsame : store.redefined store' = between.redefined store' :=
        hfiles.redefined_eq hlast fun other hother =>
          hrow.trans (Option.some.inj (hattr.symm.trans hother))
      rw [if_pos hrow, hsame]
      exact ⟨rfl, rfl⟩
    · have hnot : id ∉ between.redefined store' :=
        notMem_of_eq_none (getElem?_redefined_self hfiles.self hlast)
      have hmore : (store.redefined store').size = (between.redefined store').size + 1 := by
        rw [hfiles.redefined_insert hlast hattr hrow]
        exact Std.ExtTreeMap.size_insert.trans (if_neg hnot)
      rw [if_neg hrow, hmore]
      exact ⟨rfl, Nat.add_right_comm _ _ _⟩

/-- Only counters change. -/
theorem Counts.others (h : Counts permission declared id store report report') :
    report' = { report with
      createdAttributes := report'.createdAttributes
      updatedAttributes := report'.updatedAttributes } := by
  rcases h with ⟨-, rfl⟩ | ⟨attr, -, rfl⟩
  · rfl
  · split <;> rfl

/-! ## All attributes -/

/-- What enrolling attributes makes of a store and a report. -/
structure Brings (items : List (PermissionId × AttributeDefinition)) (store store' : MemoryStore)
    (report report' : EnrolmentReport) : Prop where
  /-- Nothing but the attributes changes. -/
  frame : store' = { store with attributes := store'.attributes, next := store'.next }
  there : ∀ item ∈ items, ∃ id, store'.attributes[id]? = some (item.2.row id item.1)
  untouched : ∀ ⦃id : AttributeId⦄ ⦃row : Attribute⦄, store.attributes[id]? = some row →
    (∀ item ∈ items, ¬(row.permission = item.1 ∧ row.key = item.2.key)) →
      store'.attributes[id]? = some row
  new : ∀ ⦃id : AttributeId⦄ ⦃row : Attribute⦄, store'.attributes[id]? = some row →
    id ∈ store.attributes ∨ ∃ item ∈ items, row = item.2.row id item.1
  counts : report' = { report with
    createdAttributes := report'.createdAttributes
    updatedAttributes := report'.updatedAttributes }
  created : store'.attributes.size + report.createdAttributes =
    store.attributes.size + report'.createdAttributes
  updated : report'.updatedAttributes =
    report.updatedAttributes + (store.redefined store').size

theorem Brings.nil (store : MemoryStore) (report : EnrolmentReport) :
    Brings [] store store report report where
  frame := rfl
  there := nofun
  untouched _ _ hrow _ := hrow
  new _ _ hrow := Or.inl (mem_iff_exists.mpr ⟨_, hrow⟩)
  counts := rfl
  created := rfl
  updated := by
    have hnone : store.redefined store = ∅ := by
      apply Std.ExtTreeMap.ext_getElem?
      intro id
      rw [Std.ExtTreeMap.getElem?_empty]
      cases hattr : store.attributes[id]? with
      | none => rw [getElem?_redefined, hattr, Option.filter_none]
      | some attr => exact getElem?_redefined_self hattr hattr
    rw [hnone, Std.ExtTreeMap.size_empty, Nat.add_zero]

/-- A step goes before the rest of the loop, if the rest is about other keys. -/
theorem Brings.cons (hfiles : Files permission declared id store between)
    (hcounts : Counts permission declared id store report report')
    (hothers : ∀ item ∈ items, (permission, declared.key) ≠ (item.1, item.2.key))
    {report'' : EnrolmentReport} (h : Brings items between store' report' report'') :
    Brings ((permission, declared) :: items) store store' report report'' := by
  have hlast : store'.attributes[id]? = some (declared.row id permission) := by
    refine h.untouched hfiles.self fun item hitem hsame => hothers item hitem ?_
    exact Prod.ext hsame.1 hsame.2
  obtain ⟨hcreated, hupdated⟩ := hcounts.counters hfiles hlast
  refine ⟨?_, List.forall_mem_cons.mpr ⟨⟨id, hlast⟩, h.there⟩, ?_, ?_, ?_, ?_, ?_⟩
  · have hframe := h.frame
    rw [hfiles.frame] at hframe
    exact hframe
  · intro id' row hrow hnot
    rw [List.forall_mem_cons] at hnot
    have hid : id' ≠ id := by
      rintro rfl
      exact hnot.1 (hfiles.own row hrow)
    exact h.untouched ((hfiles.of_ne hid).trans hrow) hnot.2
  · intro id' row hrow
    by_cases hid : id' = id
    · subst hid
      rw [hlast, Option.some.injEq] at hrow
      exact Or.inr ⟨_, List.mem_cons_self, hrow.symm⟩
    · rcases h.new hrow with hmem | ⟨item, hitem, heq⟩
      · rw [mem_iff_exists, hfiles.of_ne hid, ← mem_iff_exists] at hmem
        exact Or.inl hmem
      · exact Or.inr ⟨item, List.mem_cons_of_mem _ hitem, heq⟩
  · have hothers := h.counts
    rw [hcounts.others] at hothers
    exact hothers
  · have := h.created
    omega
  · have := h.updated
    omega

/-- Whether a table has the stored attributes of a list of permissions and declared attributes. -/
def Finds (stored : PairTable PermissionId String Attribute)
    (items : List (PermissionId × AttributeDefinition)) (store : MemoryStore) : Prop :=
  ∀ item ∈ items, ∀ attr : Attribute, stored[(item.1, item.2.key)]? = some attr ↔
    store.Keyed item.1 item.2.key attr

/-- The attributes of a store by their permissions and keys. -/
def attributesOf (store : MemoryStore) : PairTable PermissionId String Attribute :=
  .ofList (store.attributes.values.map fun row => ((row.permission, row.key), row)) _

/-- A table filled from all attributes has those of any list. -/
theorem finds_attributesOf (hsound : store.Sound)
    (items : List (PermissionId × AttributeDefinition)) : Finds (attributesOf store) items store := by
  intro item _ attr
  have hdistinct : (store.attributes.values.map fun row =>
      ((row.permission, row.key), row)).Pairwise fun a b => a.1 ≠ b.1 := by
    rw [values_eq_map_toList, List.map_map, List.pairwise_map]
    refine (PairTable.distinct_toList store.attributes).imp_of_mem ?_
    intro entry entry' hentry hentry' hne hkey
    rw [Std.ExtTreeMap.mem_toList_iff_getElem?_eq_some] at hentry hentry'
    exact hne (hsound.key_once hentry hentry' (Prod.mk.inj hkey))
  rw [attributesOf, PairTable.getElem?_ofList_eq_some_iff hdistinct, List.mem_map]
  simp only [mem_values_iff, Prod.mk.injEq]
  constructor
  · rintro ⟨row, ⟨id, hrow⟩, hkey, rfl⟩
    exact ⟨hsound.attribute_id hrow ▸ hrow, hkey⟩
  · rintro ⟨hrow, hpermission, hkey⟩
    exact ⟨attr, ⟨attr.id, hrow⟩, ⟨hpermission, hkey⟩, rfl⟩

/-- **The loop over the declared attributes.**  No permission and key is in the list twice. -/
theorem enrolAttributes_ok (hsound : store.Sound)
    (hdistinct : items.Pairwise fun a b => (a.1, a.2.key) ≠ (b.1, b.2.key))
    (hfinds : Finds stored items store)
    (hrun : enrolAttributes (MemoryStore.source limit) stored report items store =
      (.ok report', store')) (hroom : store'.next ≤ UInt64.size) :
    Brings items store store' report report' := by
  induction items generalizing report store with
  | nil =>
    cases hrun
    exact .nil _ _
  | cons item items ih =>
    obtain ⟨permission, declared⟩ := item
    obtain ⟨report₁, between, hfirst, hrest⟩ := Fetch.bind_eq_ok_iff.mp hrun
    rw [List.pairwise_cons] at hdistinct
    obtain ⟨hfind, hfinds⟩ := List.forall_mem_cons.mp hfinds
    have hevolves := (respects_evolves limit).enrolAttributes (evolves_fetch limit) stored report₁
      items
    have hbetween := Nat.le_trans (evolves_of_run hevolves hrest).next_le hroom
    obtain ⟨id, hfiles, hcounts⟩ := enrolAttribute_ok hsound hfind hfirst hbetween
    have hsound' : between.Sound := by
      have hevolves := (respects_evolves limit).enrolAttribute (evolves_fetch limit) stored report
        permission declared
      exact (evolves_of_run hevolves hfirst).sound hsound hbetween
    have hfinds' : Finds stored items between := by
      intro item hitem attr
      rw [hfinds item hitem attr, hfiles.keyed_iff (hdistinct.1 item hitem)]
    exact .cons hfiles hcounts hdistinct.1 (ih hsound' hdistinct.2 hfinds' hrest)

end Enrolment

end GradedAccess
