import GradedAccess.Proofs.Reload.FullLoad
import GradedAccess.Proofs.Reload.Reached
import GradedAccess.Proofs.Roles.Count
import GradedAccess.Proofs.Store.Plain

/-!
# What becomes of the rows of a full load

A full load reports how much it has brought and how many rows it has skipped.  If every row has a
number or a key of its own, each table holds afterwards what was brought for it and nothing else, so
the report says how much is cached.  The rows of a screening are kept or skipped, and all of them are
counted.

One kind of row is in neither number.  An attribute whose permission is not listed is left out
before anything is counted (`Rows.strays`).  So what is brought and what is skipped are all the rows
exactly if there are no such attributes (`report_accounts_for_rows`).
-/

namespace GradedAccess

open Std (ExtTreeMap)

/-! ## Lists of rows -/

/-- What is made of rows with distinct keys has distinct keys, if it keeps the keys of the rows. -/
theorem nodup_map_filterMap {ρ δ κ : Type} {entry : ρ → Option δ} {key : ρ → κ} {made : δ → κ}
    (hkey : ∀ row d, entry row = some d → made d = key row) {rows : List ρ}
    (h : (rows.map key).Nodup) : ((rows.filterMap entry).map made).Nodup := by
  refine List.pairwise_map.mpr (List.pairwise_filterMap.mpr ?_)
  refine (List.pairwise_map.mp h).imp fun {row row'} hne d hd d' hd' heq => hne ?_
  rw [← hkey row d hd, ← hkey row' d' hd', heq]

/-- A traversal that goes through has as many results as there are rows. -/
theorem length_of_mapM_eq_ok {ρ δ : Type} {f : ρ → Except Fault δ} {rows : List ρ} {found : List δ}
    (h : rows.mapM f = .ok found) : found.length = rows.length := by
  induction rows generalizing found with
  | nil => cases h; rfl
  | cons row rows ih =>
    simp only [List.mapM_cons, bind_eq_ok_iff] at h
    obtain ⟨first, -, rest, hrest, ⟨⟩⟩ := h
    rw [List.length_cons, List.length_cons, ih hrest]

/-- Whether every listed row has a number or a key of its own. -/
structure Rows.Apart (rows : Rows) : Prop where
  permissions : (rows.permissions.map (·.id)).Nodup
  attributes : (rows.attributes.map (·.id)).Nodup
  roles : RoleIndex.Apart rows.roles
  grants : (rows.grants.map fun row => (row.role, row.permission)).Nodup
  values : (rows.values.map fun row => (row.role, row.attr)).Nodup
  ceilings : (rows.ceilings.map fun row => (row.job, row.attr)).Nodup

/-- The number of all listed rows. -/
def Rows.count (rows : Rows) : Nat :=
  rows.permissions.length + rows.attributes.length + rows.roles.length + rows.grants.length +
    rows.values.length + rows.ceilings.length

/-- The listed attributes whose permission is not listed. -/
def Rows.strays (rows : Rows) : List Attribute :=
  rows.attributes.filter fun attr => !rows.permissions.any (·.id = attr.permission)

/-- The number of all cached rows. -/
def CacheSizes.total (sizes : CacheSizes) : Nat :=
  sizes.permissions + sizes.attributes + sizes.roles + sizes.grants + sizes.values + sizes.ceilings

@[simp] theorem Report.upserted_add (a b : Report) :
    (a + b).upserted = a.upserted + b.upserted := rfl

@[simp] theorem Report.skipped_add (a b : Report) : (a + b).skipped = a.skipped + b.skipped := rfl

@[simp] theorem Report.upserted_ofTally (tally : Tally) :
    (ofTally tally).upserted = tally.upserted := rfl

@[simp] theorem Report.skipped_ofTally (tally : Tally) : (ofTally tally).skipped = 0 := rfl

/-! ## What a screening counts -/

/-- A row that is screened is used or skipped. -/
theorem Screened.length_entries_add_skipped {α : Type} (verdicts : List (Verdict α)) :
    (ofVerdicts verdicts).entries.length + (ofVerdicts verdicts).skipped = verdicts.length := by
  have hentry : ∀ verdict : Verdict α, (!verdict.isSkip) = verdict.entry?.isSome := by
    rintro (_ | ⟨entry, clamped⟩) <;> rfl
  rw [ofVerdicts, List.length_filterMap_eq_countP, Nat.add_comm,
    List.length_eq_countP_add_countP Verdict.isSkip]
  simp only [← hentry, Bool.not_eq_true, Bool.decide_eq_false]

namespace Known

variable {known : Known} {ceiling : String → AttributeId → Option AttributeValue}

theorem length_screenGrants (known : Known) (rows : List Grant) :
    (known.screenGrants rows).entries.length + (known.screenGrants rows).skipped = rows.length := by
  rw [screenGrants, Screened.length_entries_add_skipped, List.length_map]

theorem length_screenCeilings {rows : List Ceiling}
    {screened : Screened ((String × AttributeId) × AttributeValue)}
    (h : known.screenCeilings rows = .ok screened) :
    screened.entries.length + screened.skipped = rows.length := by
  obtain ⟨verdicts, hverdicts, ⟨⟩⟩ := bind_eq_ok_iff.mp h
  rw [Screened.length_entries_add_skipped, length_of_mapM_eq_ok hverdicts]

theorem length_screenValues {rows : List RoleValue}
    {screened : Screened (RoleId × AttributeId × AttributeValue)}
    (h : known.screenValues ceiling rows = .ok screened) :
    screened.entries.length + screened.skipped = rows.length := by
  obtain ⟨verdicts, hverdicts, ⟨⟩⟩ := bind_eq_ok_iff.mp h
  rw [Screened.length_entries_add_skipped, length_of_mapM_eq_ok hverdicts]

/-! ## The keys of what is left -/

theorem nodup_screenGrants {rows : List Grant}
    (h : (rows.map fun row => (row.role, row.permission)).Nodup) :
    ((known.screenGrants rows).entries.map fun entry => (entry.1, entry.2.1)).Nodup := by
  rw [entries_screenGrants]
  refine nodup_map_filterMap (fun row entry hentry => ?_) h
  rw [grantVerdict] at hentry
  split at hentry
  · rw [← Option.some.inj hentry]
  · cases hentry

theorem nodup_screenCeilings {rows : List Ceiling}
    {screened : Screened ((String × AttributeId) × AttributeValue)}
    (hscreened : known.screenCeilings rows = .ok screened)
    (h : (rows.map fun row => (row.job, row.attr)).Nodup) : (screened.entries.map (·.1)).Nodup := by
  obtain ⟨-, hentries⟩ := exists_screenCeilings_iff.mp ⟨screened, hscreened, rfl⟩
  rw [hentries]
  refine nodup_map_filterMap (fun row entry hentry => ?_) h
  obtain ⟨attr, -, rfl⟩ := Option.map_eq_some_iff.mp hentry
  rfl

theorem nodup_screenValues {rows : List RoleValue}
    {screened : Screened (RoleId × AttributeId × AttributeValue)}
    (hscreened : known.screenValues ceiling rows = .ok screened)
    (h : (rows.map fun row => (row.role, row.attr)).Nodup) :
    (screened.entries.map fun entry => (entry.1, entry.2.1)).Nodup := by
  obtain ⟨-, hentries⟩ := exists_screenValues_iff.mp ⟨screened, hscreened, rfl⟩
  rw [hentries]
  refine nodup_map_filterMap (fun row entry hentry => ?_) h
  obtain ⟨job, -, hentry⟩ := Option.bind_eq_some_iff.mp hentry
  obtain ⟨attr, -, rfl⟩ := Option.map_eq_some_iff.mp hentry
  rfl

end Known

namespace PairTable

/-- When all rows of a table are replaced by rows with distinct keys, there are as many entries. -/
theorem size_replaceRows_firsts {α β γ : Type} [Ord α] [Ord β] [Std.TransOrd α] [Std.TransOrd β]
    [Std.LawfulEqOrd α] [Std.LawfulEqOrd β] [DecidableEq α] [DecidableEq β]
    (table : PairTable α β γ) {fresh : List (α × β × γ)}
    (h : (fresh.map fun row => (row.1, row.2.1)).Nodup) :
    (table.replaceRows table.firsts fresh).1.size = fresh.length :=
  size_eq_length_of_freshRow h (getElem?_replaceRows_firsts table fresh)

end PairTable

namespace Caches

variable {caches after : Caches} {report : Report} {rows : Rows}

/-! ## What a full load reports -/

section Parts

variable (caches : Caches) (roles : List RoleId) (jobs : List String)

theorem report_commitGrants (screened : Screened (RoleId × PermissionId × Bool)) :
    (caches.commitGrants roles screened).2.upserted = screened.entries.length ∧
      (caches.commitGrants roles screened).2.skipped = screened.skipped :=
  ⟨(Nat.zero_add _).trans (PairTable.upserted_replaceRows _ _ _), rfl⟩

theorem report_commitValues (screened : Screened (RoleId × AttributeId × AttributeValue)) :
    (caches.commitValues roles screened).2.upserted = screened.entries.length ∧
      (caches.commitValues roles screened).2.skipped = screened.skipped :=
  ⟨(Nat.zero_add _).trans (PairTable.upserted_replaceRows _ _ _), rfl⟩

theorem report_commitCeilings
    (screened : Screened ((String × AttributeId) × AttributeValue)) :
    (caches.commitCeilings jobs screened).2.upserted = screened.toCeilings.size ∧
      (caches.commitCeilings jobs screened).2.skipped = screened.skipped := by
  refine ⟨(Nat.zero_add _).trans ((PairTable.upserted_replaceRows _ _ _).trans ?_), rfl⟩
  rw [List.length_map, ExtTreeMap.length_toList]

end Parts

/-- What is reported of a load is what has been screened and what has been replaced. -/
theorem report_of_load {ceilings : Screened ((String × AttributeId) × AttributeValue)}
    {values : Screened (RoleId × AttributeId × AttributeValue)}
    (hceilings : (knownIn rows).screenCeilings rows.ceilings = .ok ceilings)
    (hvalues : (knownIn rows).screenValues (fun job attr => ceilings.toCeilings[(job, attr)]?)
      rows.values = .ok values)
    (h : caches.load rows = .ok (after, report)) :
    report.upserted = rows.permissions.length + (knownAttributes rows).size +
        (caches.roles.replaceAll rows.roles).2.upserted +
        ((knownIn rows).screenGrants rows.grants).entries.length + values.entries.length +
        ceilings.toCeilings.size ∧
      report.skipped = ((knownIn rows).screenGrants rows.grants).skipped + values.skipped +
        ceilings.skipped := by
  simp only [load, bind_eq_ok_iff] at h
  obtain ⟨ceilings', hceilings', values', hvalues', h⟩ := h
  obtain rfl : ceilings = ceilings' := Except.ok.inj (hceilings.symm.trans hceilings')
  obtain rfl : values = values' := Except.ok.inj (hvalues.symm.trans hvalues')
  have hreport := congrArg Prod.snd (Except.ok.inj h)
  simp only at hreport
  rw [← hreport]
  have hknown : (knownAttributes rows).values.length = (knownAttributes rows).size := by
    rw [values_eq_map_toList, List.length_map, ExtTreeMap.length_toList]
  constructor
  · simp only [Report.upserted_add, Report.upserted_ofTally, Tally.upserted_add,
      (report_commitGrants _ _ _).1, (report_commitValues _ _ _).1,
      (report_commitCeilings _ _ _).1, ← hknown]
    rfl
  · simp only [Report.skipped_add, Report.skipped_ofTally, Nat.zero_add,
      (report_commitGrants _ _ _).2, (report_commitValues _ _ _).2,
      (report_commitCeilings _ _ _).2]

/-! ## What a full load leaves -/

/-- Among the known attributes every one is under its own number. -/
theorem id_knownAttributes ⦃id : AttributeId⦄ ⦃row : Attribute⦄
    (h : (knownAttributes rows)[id]? = some row) : row.id = id := by
  rw [knownAttributes, PairTable.getElem?_ofList] at h
  obtain ⟨listed, -, heq⟩ := List.mem_map.mp (PairTable.mem_of_lastFor h)
  obtain ⟨rfl, rfl⟩ := Prod.mk.inj heq
  rfl

/-- The attributes that are listed are known, or strays. -/
theorem size_knownAttributes (h : rows.Apart) :
    (knownAttributes rows).size + rows.strays.length = rows.attributes.length := by
  have hids : (((rows.attributes.filter fun attr =>
      rows.permissions.any (·.id = attr.permission)).map fun attr => (attr.id, attr)).map
        (·.1)).Nodup := by
    rw [List.map_map]
    exact h.attributes.sublist (List.filter_sublist.map _)
  rw [knownAttributes, PairTable.size_ofList hids, List.length_map, Rows.strays]
  exact (List.length_eq_length_filter_add _).symm

/-- After a full load there is cached what was brought. -/
theorem sizes_of_load (happart : rows.Apart) (hfiled : caches.roles.Filed)
    (h : caches.load rows = .ok (after, report)) :
    ∃ ceilings values,
      (knownIn rows).screenCeilings rows.ceilings = .ok ceilings ∧
      (knownIn rows).screenValues (fun job attr => ceilings.toCeilings[(job, attr)]?) rows.values =
        .ok values ∧
      after.sizes = {
        permissions := rows.permissions.length
        attributes := (knownAttributes rows).size
        roles := rows.roles.length
        grants := ((knownIn rows).screenGrants rows.grants).entries.length
        values := values.entries.length
        ceilings := ceilings.toCeilings.size } := by
  obtain ⟨ceilings, values, hceilings, hvalues, hafter⟩ := load_eq_ok h
  refine ⟨ceilings, values, hceilings, hvalues, ?_⟩
  have hpermissions : after.catalog.permissions.size = rows.permissions.length := by
    have hids : ((rows.permissions.map fun row => (row.id, row)).map (·.1)).Nodup := by
      rw [List.map_map]
      exact happart.permissions
    rw [hafter]
    exact (PairTable.size_ofList hids).trans (List.length_map _)
  have hattributes : after.catalog.attributes.size = (knownAttributes rows).size := by
    rw [hafter]
    exact congrArg ExtTreeMap.size (MemoryStore.ofList_values Attribute.id id_knownAttributes)
  have hroles : after.roles.size = rows.roles.length := by
    rw [hafter]
    exact RoleIndex.size_replaceAll hfiled happart.roles
  have hgrants : after.grants.size =
      ((knownIn rows).screenGrants rows.grants).entries.length := by
    rw [hafter]
    exact PairTable.size_replaceRows_firsts _ (Known.nodup_screenGrants happart.grants)
  have hheld : after.values.size = values.entries.length := by
    rw [hafter]
    exact PairTable.size_replaceRows_firsts _ (Known.nodup_screenValues hvalues happart.values)
  have hlimits : after.ceilings.size = ceilings.toCeilings.size := by
    have hkeys : ((ceilings.toCeilings.toList.map fun entry =>
        (entry.1.1, entry.1.2, entry.2)).map fun row => (row.1, row.2.1)).Nodup := by
      rw [List.map_map]
      exact List.pairwise_map.mpr (PairTable.distinct_toList ceilings.toCeilings)
    rw [hafter]
    refine (PairTable.size_replaceRows_firsts _ hkeys).trans ?_
    rw [List.length_map, ExtTreeMap.length_toList]
  rw [sizes, hpermissions, hattributes, hroles, hgrants, hheld, hlimits]

/-- A full load reports as much brought as is cached then, and as many rows brought or skipped as
were listed, strays apart. -/
theorem accounts_of_load (happart : rows.Apart) (hfiled : caches.roles.Filed)
    (h : caches.load rows = .ok (after, report)) :
    report.upserted = after.sizes.total ∧
      report.upserted + report.skipped + rows.strays.length = rows.count := by
  obtain ⟨ceilings, values, hceilings, hvalues, hsizes⟩ := sizes_of_load happart hfiled h
  obtain ⟨hupserted, hskipped⟩ := report_of_load hceilings hvalues h
  rw [RoleIndex.upserted_replaceAll _ happart.roles] at hupserted
  have hattributes := size_knownAttributes happart
  have hgrants := Known.length_screenGrants (knownIn rows) rows.grants
  have hheld := Known.length_screenValues hvalues
  have hlimits := Known.length_screenCeilings hceilings
  have hnodup : (ceilings.entries.map (·.1)).Nodup :=
    Known.nodup_screenCeilings hceilings happart.ceilings
  have hbrought : ceilings.toCeilings.size = ceilings.entries.length :=
    PairTable.size_ofList hnodup
  refine ⟨by rw [hupserted, hsizes, CacheSizes.total], ?_⟩
  rw [Rows.count]
  omega

end Caches

/-! ## Caches that loaders have reached -/

theorem Caches.filed_reloadGrants {caches : Caches} (h : caches.roles.Filed) (id : RoleId)
    (row : Option Role) (rows : List Grant) : (caches.reloadGrants id row rows).1.roles.Filed := by
  cases row with
  | none => exact h.remove id
  | some row => exact h.upsert row

theorem Caches.filed_reloadValues {caches caches' : Caches} {report : Report}
    (h : caches.roles.Filed) {id : RoleId} {row : Option Role} {rows : List RoleValue}
    (hchange : caches.reloadValues id row rows = .ok (caches', report)) : caches'.roles.Filed := by
  cases row with
  | none =>
    cases hchange
    exact h.remove id
  | some row =>
    obtain ⟨screened, -, hcommit⟩ := bind_eq_ok_iff.mp hchange
    cases hcommit
    exact h.upsert row

theorem Caches.filed_reloadJob {caches caches' : Caches} {report : Report}
    (h : caches.roles.Filed) {job : String} {rows : JobRows}
    (hchange : caches.reloadJob job rows = .ok (caches', report)) : caches'.roles.Filed := by
  obtain ⟨ceilings, values, -, -, hcommit⟩ := reloadJob_eq_ok_iff.mp hchange
  cases hcommit
  exact h.replaceJob job _

/-- Whether cached roles that are filed under their numbers stay filed. -/
def Caches.KeepsFiled (caches caches' : Caches) : Prop := caches.roles.Filed → caches'.roles.Filed

/-- Every reload keeps cached roles filed, whatever the store does. -/
theorem Source.carries_filed {σ : Type} (source : Source σ) : source.Carries
    fun loaded loaded' => loaded.caches.KeepsFiled loaded'.caches where
  refl _ := id
  trans _ _ _ h h' := h' ∘ h
  loadAll := Load.relates_caches source.loadAll_eq Caches.KeepsFiled (fun _ => id)
      fun hload hfiled => by
    obtain ⟨_, _, -, -, rfl⟩ := Caches.load_eq_ok hload
    exact hfiled.replaceAll _
  reloadGrants id := by
    refine Load.relates_caches (source.reloadGrants_eq id) Caches.KeepsFiled (fun _ h => h)
      fun {rows caches caches' report} hchange hfiled => ?_
    have hkept := Caches.filed_reloadGrants hfiled id rows.1 rows.2
    rwa [Except.ok.inj hchange] at hkept
  reloadValues id := Load.relates_caches (source.reloadValues_eq id) Caches.KeepsFiled
    (fun _ h => h) fun hchange hfiled => Caches.filed_reloadValues hfiled hchange
  reloadJob job := Load.relates_caches (source.reloadJob_eq job) Caches.KeepsFiled (fun _ => id)
    fun hchange hfiled => Caches.filed_reloadJob hfiled hchange

theorem LoaderCall.filed_after (made : LoaderCall) {caches : Caches} (h : caches.roles.Filed) :
    (made.after caches).roles.Filed := by
  obtain ⟨source, state, call⟩ := made
  cases call with
  | reload scope => exact source.carries_filed.reload scope ⟨caches, state⟩ h
  | apply event => exact source.carries_filed.applyEvent event ⟨caches, state⟩ h
  | enrol registry => exact h

/-- Loaders file cached roles under their numbers, whatever the stores do. -/
theorem Caches.filed_reached (calls : List LoaderCall) : (Caches.reached calls).roles.Filed := by
  induction calls using List.reverseRecOn with
  | nil => exact RoleIndex.sound_empty.filed
  | append_singleton calls last ih =>
    rw [reached_concat]
    exact last.filed_after ih

/-! ## Every row of a load -/

/-- A commit that succeeds reports what its change does. -/
theorem Load.change_of_commit {σ : Type} {change : Caches → Except Fault (Caches × Report)}
    {before after : Loaded σ} {report : Report}
    (h : Load.commit change before = (.ok report, after)) :
    change before.caches = .ok (after.caches, report) := by
  rw [Load.commit] at h
  split at h
  · next hchange =>
    cases h
    exact hchange
  · cases h

/-- **A full load accounts for its rows, strays apart.**  Whatever the caches held before and
whatever stores they were loaded from: if a full load succeeds and every listed row has a number or
a key of its own, as much is reported as brought as is cached then.  What is brought and what is
skipped are all the rows except the attributes whose permission is not listed, so all rows are
accounted for exactly if there are none of these. -/
theorem Source.report_accounts_for_rows {σ : Type} (calls : List LoaderCall) (source : Source σ)
    (state : σ) {rows : Rows} {report : Report} {loaded : Loaded σ}
    (hrows : (source.fetchAll state).1 = .ok rows) (happart : rows.Apart)
    (hload : source.loadAll ⟨Caches.reached calls, state⟩ = (.ok report, loaded)) :
    report.upserted = loaded.caches.sizes.total ∧
      report.upserted + report.skipped + rows.strays.length = rows.count ∧
      (report.upserted + report.skipped = rows.count ↔ rows.strays = []) := by
  have hfetched : source.fetchAll state = (.ok rows, (source.fetchAll state).2) :=
    Fetch.run_eq _ _ hrows
  have hcommit : Load.commit (fun caches => caches.load rows)
      ⟨Caches.reached calls, (source.fetchAll state).2⟩ = (.ok report, loaded) :=
    (Load.fetch_commit_of_ok source.loadAll_eq hfetched).symm.trans hload
  have hchange : (Caches.reached calls).load rows = .ok (loaded.caches, report) :=
    Load.change_of_commit hcommit
  obtain ⟨hbrought, hcounted⟩ :=
    Caches.accounts_of_load happart (Caches.filed_reached calls) hchange
  refine ⟨hbrought, hcounted, ?_⟩
  rw [← List.length_eq_zero_iff]
  omega

/-- A store with an attribute whose permission is not listed.  A grant is of a role that is not
listed, and a value is of that attribute. -/
def ListStore.straying : ListStore where
  rows := {
    permissions := [⟨⟨1⟩, "citizens", "List", "citizens-list", 0⟩]
    attributes := [⟨⟨10⟩, ⟨1⟩, "fields", .stringList, .strings ⟨["name"]⟩⟩,
      ⟨⟨11⟩, ⟨2⟩, "fields", .stringList, .strings ⟨["name"]⟩⟩]
    roles := [⟨⟨3⟩, "police", 5⟩]
    grants := [⟨⟨3⟩, ⟨1⟩, true⟩, ⟨⟨9⟩, ⟨1⟩, true⟩]
    values := [⟨⟨3⟩, ⟨10⟩, none⟩, ⟨⟨3⟩, ⟨11⟩, none⟩]
    ceilings := [⟨"police", ⟨10⟩, none⟩] }

/-- After an earlier load of a store with one role, nine rows are listed: six are brought, a grant
and a value are skipped, and the attribute is in neither number. -/
theorem Caches.stray_is_not_counted :
    let earlier : ListStore := { rows := { roles := [⟨⟨4⟩, "police", 5⟩] } }
    let caches := reached [⟨ListStore.source 0, earlier, .reload .all⟩]
    let loaded := (ListStore.source 0).loadAll ⟨caches, ListStore.straying⟩
    ListStore.straying.rows.Apart ∧ loaded.1 = .ok ⟨6, 1, 2, 0⟩ ∧
      loaded.2.caches.sizes.total = 6 ∧ ListStore.straying.rows.count = 9 ∧
      6 + 2 ≠ ListStore.straying.rows.count := by
  intro earlier caches loaded
  have happart : ListStore.straying.rows.Apart :=
    ⟨by decide, by decide, ⟨by decide, by decide⟩, by decide, by decide, by decide⟩
  have hrows : ((ListStore.source 0).fetchAll ListStore.straying).1 =
      .ok ListStore.straying.rows := by decide +kernel
  have hreport : loaded.1 = .ok ⟨6, 1, 2, 0⟩ := by decide +kernel
  have hload : loaded = (.ok ⟨6, 1, 2, 0⟩, loaded.2) :=
    Fetch.run_eq (ListStore.source 0).loadAll ⟨caches, ListStore.straying⟩ hreport
  obtain ⟨hbrought, -, haccounted⟩ := Source.report_accounts_for_rows
    [⟨ListStore.source 0, earlier, .reload .all⟩] (ListStore.source 0) ListStore.straying hrows
    happart hload
  have hstray : ListStore.straying.rows.strays ≠ [] := by decide
  exact ⟨happart, hreport, hbrought.symm, by decide, fun hall => hstray (haccounted.mp hall)⟩

end GradedAccess
