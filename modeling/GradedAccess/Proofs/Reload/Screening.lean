import GradedAccess.Proofs.Attribute.Value
import GradedAccess.Proofs.Tables
import GradedAccess.Reload.Commit

/-!
# What a screening leaves

A screening that goes through turns each row into the entry the row stands for, or into nothing if
the row refers to something unknown.  The entry of a row does not depend on the other rows, so
what is left under one role, or under one job, can be read off the rows listed for it
(`lastFor_screenGrants`, `lastFor_valueEntries`, `lastFor_ceilingEntries`).

A screening goes through exactly when every row that refers to known things has a value of the
kind of its attribute.  Both directions are needed: one to see that a reload succeeds, the other
to learn the kinds from a reload that did.
-/

namespace GradedAccess

open Std (ExtTreeMap)

/-- The value a role has of an attribute: what its row says, kept to the valid values of the
attribute and to the most its job may have. -/
def Attribute.kept (attr : Attribute) (most value : Option AttributeValue) : AttributeValue :=
  ((AttributeValue.orEmpty attr.kind value).limited (some attr.valid) most).value

namespace Known

variable {known : Known} {ceiling : String → AttributeId → Option AttributeValue}

/-! ## Entries -/

/-- The entry of a ceiling, if its attribute is known. -/
def ceilingEntry (known : Known) (row : Ceiling) :
    Option ((String × AttributeId) × AttributeValue) :=
  (known.attr row.attr).map fun attr =>
    ((row.job, row.attr), AttributeValue.orEmpty attr.kind row.most)

/-- The entry of a role value, if its role and its attribute are known. -/
def valueEntry (known : Known) (ceiling : String → AttributeId → Option AttributeValue)
    (row : RoleValue) : Option (RoleId × AttributeId × AttributeValue) :=
  (known.jobOf row.role).bind fun job => (known.attr row.attr).map fun attr =>
    (row.role, row.attr, attr.kept (ceiling job attr.id) row.value)

/-- Whether the maximum of a row is of the kind of its attribute, where that is known. -/
def CeilingFits (known : Known) (row : Ceiling) : Prop :=
  ∀ attr, known.attr row.attr = some attr → ∀ v, row.most = some v → v.kind = attr.kind

/-- Whether everything that takes part in checking the value of a row is of the kind of its
attribute, where role and attribute are known. -/
def ValueFits (known : Known) (ceiling : String → AttributeId → Option AttributeValue)
    (row : RoleValue) : Prop :=
  ∀ job attr, known.jobOf row.role = some job → known.attr row.attr = some attr →
    (∀ v, row.value = some v → v.kind = attr.kind) ∧ attr.valid.kind = attr.kind ∧
      ∀ v, ceiling job attr.id = some v → v.kind = attr.kind

/-- A ceiling is screened exactly if it fits, and its entry is used. -/
theorem exists_ceilingVerdict_iff {row : Ceiling}
    {entry : Option ((String × AttributeId) × AttributeValue)} :
    (∃ verdict, known.ceilingVerdict row = .ok verdict ∧ verdict.entry? = entry) ↔
      known.CeilingFits row ∧ entry = known.ceilingEntry row := by
  rw [ceilingVerdict, ceilingEntry, CeilingFits]
  cases hattr : known.attr row.attr with
  | none =>
    constructor
    · rintro ⟨_, ⟨⟩, rfl⟩
      exact ⟨nofun, rfl⟩
    · rintro ⟨-, rfl⟩
      exact ⟨_, rfl, rfl⟩
  | some attr =>
    simp only [bind_eq_ok_iff, AttributeValue.orDefault_eq_ok_iff]
    constructor
    · rintro ⟨_, ⟨_, ⟨hmost, rfl⟩, ⟨⟩⟩, rfl⟩
      refine ⟨?_, rfl⟩
      rintro _ ⟨⟩
      exact hmost
    · rintro ⟨hfits, rfl⟩
      exact ⟨_, ⟨_, ⟨hfits attr rfl, rfl⟩, rfl⟩, rfl⟩

/-- A role value is screened exactly if it fits, and its entry is used. -/
theorem exists_valueVerdict_iff {row : RoleValue}
    {entry : Option (RoleId × AttributeId × AttributeValue)} :
    (∃ verdict, known.valueVerdict ceiling row = .ok verdict ∧ verdict.entry? = entry) ↔
      known.ValueFits ceiling row ∧ entry = known.valueEntry ceiling row := by
  rw [valueVerdict, valueEntry, ValueFits]
  cases hjob : known.jobOf row.role with
  | none =>
    constructor
    · rintro ⟨_, ⟨⟩, rfl⟩
      exact ⟨nofun, rfl⟩
    · rintro ⟨-, rfl⟩
      exact ⟨_, rfl, rfl⟩
  | some job =>
    cases hattr : known.attr row.attr with
    | none =>
      constructor
      · rintro ⟨_, ⟨⟩, rfl⟩
        exact ⟨fun _ _ _ => nofun, rfl⟩
      · rintro ⟨-, rfl⟩
        exact ⟨_, rfl, rfl⟩
    | some attr =>
      simp only [bind_eq_ok_iff, AttributeValue.orDefault_eq_ok_iff, AttributeValue.check_eq_ok_iff]
      constructor
      · rintro ⟨_, ⟨_, ⟨hvalue, rfl⟩, _, ⟨-, hvalid, hmost, rfl⟩, ⟨⟩⟩, rfl⟩
        refine ⟨?_, rfl⟩
        rintro _ _ ⟨⟩ ⟨⟩
        exact ⟨hvalue, hvalid _ rfl, hmost⟩
      · rintro ⟨hfits, rfl⟩
        obtain ⟨hvalue, hvalid, hmost⟩ := hfits job attr rfl rfl
        refine ⟨_, ⟨_, ⟨hvalue, rfl⟩, _, ⟨AttributeValue.kind_orEmpty hvalue, ?_, hmost, rfl⟩, rfl⟩,
          rfl⟩
        rintro _ ⟨⟩
        exact hvalid

/-! ## Lists of rows -/

/-- A screening leaves the entries of its rows if every row is screened, and fails otherwise. -/
theorem exists_mapM_iff {ρ α : Type} {verdict : ρ → Except Fault (Verdict α)} {Fits : ρ → Prop}
    {entry : ρ → Option α}
    (hverdict : ∀ row found, (∃ v, verdict row = .ok v ∧ v.entry? = found) ↔
      Fits row ∧ found = entry row) (rows : List ρ) (entries : List α) :
    (∃ vs, rows.mapM verdict = .ok vs ∧ vs.filterMap Verdict.entry? = entries) ↔
      (∀ row ∈ rows, Fits row) ∧ entries = rows.filterMap entry := by
  induction rows generalizing entries with
  | nil =>
    constructor
    · rintro ⟨_, ⟨⟩, rfl⟩
      exact ⟨nofun, rfl⟩
    · rintro ⟨-, rfl⟩
      exact ⟨[], rfl, rfl⟩
  | cons row rows ih =>
    simp only [List.mapM_cons, bind_eq_ok_iff, List.forall_mem_cons]
    constructor
    · rintro ⟨_, ⟨v, hv, vs, hvs, ⟨⟩⟩, rfl⟩
      obtain ⟨hfits, hentry⟩ := (hverdict row _).mp ⟨v, hv, rfl⟩
      obtain ⟨hrest, hentries⟩ := (ih _).mp ⟨vs, hvs, rfl⟩
      refine ⟨⟨hfits, hrest⟩, ?_⟩
      rw [List.filterMap_cons, List.filterMap_cons, hentry, hentries]
    · rintro ⟨⟨hfits, hrest⟩, rfl⟩
      obtain ⟨v, hv, hentry⟩ := (hverdict row _).mpr ⟨hfits, rfl⟩
      obtain ⟨vs, hvs, hentries⟩ := (ih _).mpr ⟨hrest, rfl⟩
      refine ⟨v :: vs, ⟨v, hv, vs, hvs, rfl⟩, ?_⟩
      rw [List.filterMap_cons, List.filterMap_cons, hentry, hentries]

theorem entries_screenGrants (known : Known) (rows : List Grant) :
    (known.screenGrants rows).entries =
      rows.filterMap fun row => Verdict.entry? (known.grantVerdict row) :=
  List.filterMap_map

/-- The ceilings that are left are the entries of the rows, provided all of them fit. -/
theorem exists_screenCeilings_iff {rows : List Ceiling}
    {entries : List ((String × AttributeId) × AttributeValue)} :
    (∃ screened, known.screenCeilings rows = .ok screened ∧ screened.entries = entries) ↔
      (∀ row ∈ rows, known.CeilingFits row) ∧ entries = rows.filterMap known.ceilingEntry := by
  rw [← exists_mapM_iff fun _ _ => exists_ceilingVerdict_iff]
  simp only [screenCeilings, bind_eq_ok_iff]
  constructor
  · rintro ⟨_, ⟨vs, hvs, ⟨⟩⟩, rfl⟩
    exact ⟨vs, hvs, rfl⟩
  · rintro ⟨vs, hvs, rfl⟩
    exact ⟨_, ⟨vs, hvs, rfl⟩, rfl⟩

/-- The role values that are left are the entries of the rows, provided all of them fit. -/
theorem exists_screenValues_iff {rows : List RoleValue}
    {entries : List (RoleId × AttributeId × AttributeValue)} :
    (∃ screened, known.screenValues ceiling rows = .ok screened ∧ screened.entries = entries) ↔
      (∀ row ∈ rows, known.ValueFits ceiling row) ∧
        entries = rows.filterMap (known.valueEntry ceiling) := by
  rw [← exists_mapM_iff fun _ _ => exists_valueVerdict_iff]
  simp only [screenValues, bind_eq_ok_iff]
  constructor
  · rintro ⟨_, ⟨vs, hvs, ⟨⟩⟩, rfl⟩
    exact ⟨vs, hvs, rfl⟩
  · rintro ⟨vs, hvs, rfl⟩
    exact ⟨_, ⟨vs, hvs, rfl⟩, rfl⟩

/-! ## What is left under one role or one job -/

/-- The entry of a grant is for the role of the grant. -/
theorem role_of_grantEntry {row : Grant} {entry : RoleId × PermissionId × Bool}
    (h : Verdict.entry? (known.grantVerdict row) = some entry) : entry.1 = row.role := by
  rw [grantVerdict] at h
  split at h
  · rw [← Option.some.inj h]
  · cases h

/-- The entry of a role value is for the role of the value. -/
theorem role_of_valueEntry {row : RoleValue} {entry : RoleId × AttributeId × AttributeValue}
    (h : known.valueEntry ceiling row = some entry) : entry.1 = row.role := by
  rw [valueEntry, Option.bind_eq_some_iff] at h
  obtain ⟨job, -, h⟩ := h
  obtain ⟨found, -, rfl⟩ := Option.map_eq_some_iff.mp h
  rfl

/-- The entry of a ceiling is for the job of the ceiling. -/
theorem job_of_ceilingEntry {row : Ceiling} {entry : (String × AttributeId) × AttributeValue}
    (h : known.ceilingEntry row = some entry) : entry.1.1 = row.job := by
  obtain ⟨found, -, rfl⟩ := Option.map_eq_some_iff.mp h
  rfl

/-- The grants that are left under a role are those listed for it, if role and permission are
known. -/
theorem lastFor_screenGrants {table : PairTable RoleId PermissionId Bool} {rows : List Grant}
    {role : RoleId} (hrows : rows.filter (·.role = role) =
      (table.row role).map fun entry => ⟨role, entry.1, entry.2⟩) (permission : PermissionId) :
    PairTable.lastFor permission (PairTable.freshRow (known.screenGrants rows).entries role) =
      table[(role, permission)]?.bind fun value =>
        if (known.jobOf role).isSome && known.permission permission then some value else none := by
  rw [entries_screenGrants, PairTable.freshRow_filterMap _ _ fun _ _ => role_of_grantEntry, hrows,
    List.filterMap_map]
  refine Eq.trans ?_ (PairTable.lastFor_filterMap_row table role (fun permission value =>
    if (known.jobOf role).isSome && known.permission permission then some value else none)
    permission)
  congr 1
  refine congrArg (List.filterMap · _) (funext fun entry => ?_)
  rw [Function.comp_apply, grantVerdict]
  split <;> rfl

/-- The values that are left under a role are those listed for it, kept to their limits, if role
and attribute are known. -/
theorem lastFor_valueEntries {table : PairTable RoleId AttributeId (Option AttributeValue)}
    {rows : List RoleValue} {role : RoleId} (hrows : rows.filter (·.role = role) =
      (table.row role).map fun entry => ⟨role, entry.1, entry.2⟩) (attr : AttributeId) :
    PairTable.lastFor attr
        (PairTable.freshRow (rows.filterMap (known.valueEntry ceiling)) role) =
      table[(role, attr)]?.bind fun value => (known.jobOf role).bind fun job =>
        (known.attr attr).map fun row => row.kept (ceiling job row.id) value := by
  rw [PairTable.freshRow_filterMap _ _ fun _ _ => role_of_valueEntry, hrows, List.filterMap_map]
  refine Eq.trans ?_ (PairTable.lastFor_filterMap_row table role (fun attr value =>
    (known.jobOf role).bind fun job => (known.attr attr).map fun row =>
      row.kept (ceiling job row.id) value) attr)
  congr 1
  refine congrArg (List.filterMap · _) (funext fun entry => ?_)
  rw [Function.comp_apply, valueEntry]
  cases known.jobOf role with
  | none => rfl
  | some job => cases known.attr entry.1 <;> rfl

/-- The ceilings that are left for a job are those listed for it, if their attribute is known. -/
theorem lastFor_ceilingEntries {table : PairTable String AttributeId (Option AttributeValue)}
    {rows : List Ceiling} {job : String} (hrows : rows.filter (·.job = job) =
      (table.row job).map fun entry => ⟨job, entry.1, entry.2⟩) (attr : AttributeId) :
    PairTable.lastFor (job, attr) (rows.filterMap known.ceilingEntry) =
      table[(job, attr)]?.bind fun most =>
        (known.attr attr).map fun row => AttributeValue.orEmpty row.kind most := by
  have howner : ∀ (row : Ceiling) made,
      ((known.ceilingEntry row).map fun entry => (entry.1.1, entry.1.2, entry.2)) = some made →
        made.1 = row.job := by
    intro row made hmade
    obtain ⟨entry, hentry, rfl⟩ := Option.map_eq_some_iff.mp hmade
    exact job_of_ceilingEntry hentry
  rw [PairTable.lastFor_pair, List.map_filterMap, PairTable.freshRow_filterMap _ _ howner, hrows,
    List.filterMap_map]
  refine Eq.trans ?_ (PairTable.lastFor_filterMap_row table job (fun attr most =>
    (known.attr attr).map fun row => AttributeValue.orEmpty row.kind most) attr)
  congr 1
  refine congrArg (List.filterMap · _) (funext fun entry => ?_)
  rw [Function.comp_apply, ceilingEntry]
  cases known.attr entry.1 <;> rfl

end Known

end GradedAccess
