import GradedAccess.Proofs.Reload.Screening

/-!
# Reloading a job, as a change of tables

A reload of a job screens the rows of the job, and then replaces rows in four tables of the caches.
The four replacements do not depend on each other, so what is left can be written down table by
table (`commitJob`).  A reload succeeds exactly when both screenings do (`reloadJob_eq_ok_iff`).

Rows of other jobs may have been listed as well.  Of the roles and the ceilings only those of the
job are used; of the grants and values only those of a role of the job, since no other role is
known.
-/

namespace GradedAccess

open Std (ExtTreeMap)

namespace Caches

variable {caches caches' : Caches} {id : RoleId} {job : String} {rows : JobRows}

/-- The listed roles that are used: those of the job. -/
def JobRows.own (rows : JobRows) (job : String) : List Role := rows.roles.filter (·.job = job)

/-- The roles whose grants and values are replaced with a job. -/
def affected (caches : Caches) (job : String) (rows : JobRows) : List RoleId :=
  caches.roles.jobRoles job ++ (rows.own job).map (·.id)

/-- Among some roles a role is known under its number. -/
theorem jobOf_knownAmong {roles : List Role} (hdistinct : roles.Pairwise fun a b => a.id ≠ b.id)
    {row : Role} (hmem : row ∈ roles) :
    (caches.knownAmong roles).jobOf row.id = some row.job := by
  have hpairs : (roles.map fun role => (role.id, role)).Pairwise fun a b => a.1 ≠ b.1 :=
    List.pairwise_map.mpr hdistinct
  have hfound : (rolesById roles)[row.id]? = some row := by
    rw [rolesById, PairTable.getElem?_ofList_eq_some_iff hpairs]
    exact List.mem_map_of_mem hmem
  exact congrArg (Option.map (·.job)) hfound

/-- A role that is known among some roles is one of them. -/
theorem of_jobOf_knownAmong {roles : List Role}
    (h : (caches.knownAmong roles).jobOf id = some job) :
    ∃ row ∈ roles, row.id = id ∧ row.job = job := by
  obtain ⟨row, hrow, hjob⟩ := Option.map_eq_some_iff.mp h
  rw [rolesById, PairTable.getElem?_ofList] at hrow
  obtain ⟨listed, hlisted, heq⟩ := List.mem_map.mp (PairTable.mem_of_lastFor hrow)
  obtain ⟨hid, rfl⟩ := Prod.mk.inj heq
  exact ⟨listed, hlisted, hid, hjob⟩

/-- The screened ceilings of a job are ceilings of that job. -/
theorem job_of_toCeilings {known : Known} {listed : List Ceiling}
    {screened : Screened ((String × AttributeId) × AttributeValue)}
    (h : known.screenCeilings (listed.filter (·.job = job)) = .ok screened) {job' : String}
    {attr : AttributeId} {most : AttributeValue}
    (hmost : screened.toCeilings[(job', attr)]? = some most) : job' = job := by
  obtain ⟨-, hentries⟩ := Known.exists_screenCeilings_iff.mp ⟨screened, h, rfl⟩
  rw [Screened.toCeilings, PairTable.getElem?_ofList, hentries] at hmost
  obtain ⟨row, hrow, hentry⟩ := List.mem_filterMap.mp (PairTable.mem_of_lastFor hmost)
  have hown : job' = row.job := Known.job_of_ceilingEntry hentry
  rw [hown]
  exact of_decide_eq_true (List.mem_filter.mp hrow).2

/-- When the ceilings of a job are replaced by ceilings of that job, those of other jobs stay. -/
theorem getElem?_replaceRows_ceilings (held : PairTable String AttributeId AttributeValue)
    {ceilings : Ceilings} (hown : ∀ ⦃job' : String⦄ ⦃attr : AttributeId⦄ ⦃most : AttributeValue⦄,
      ceilings[(job', attr)]? = some most → job' = job) (job' : String) (attr : AttributeId) :
    (held.replaceRows [job]
        (ceilings.toList.map fun entry => (entry.1.1, entry.1.2, entry.2))).1[(job', attr)]? =
      if job' = job then ceilings[(job', attr)]? else held[(job', attr)]? := by
  have hnamed : ∀ entry ∈ ceilings.toList.map fun entry => (entry.1.1, entry.1.2, entry.2),
      entry.1 ∈ [job] := by
    intro entry hentry
    obtain ⟨held, hheld, rfl⟩ := List.mem_map.mp hentry
    rw [ExtTreeMap.mem_toList_iff_getElem?_eq_some] at hheld
    exact List.mem_singleton.mpr (hown hheld)
  rw [PairTable.getElem?_replaceRows_of_named held hnamed, ← PairTable.lastFor_pair,
    PairTable.lastFor_toList]
  simp only [List.mem_singleton]

/-- The caches with the rows of a job replaced by those that a screening has left, and what is
reported. -/
def commitJob (caches : Caches) (job : String) (rows : JobRows)
    (ceilings : Screened ((String × AttributeId) × AttributeValue))
    (values : Screened (RoleId × AttributeId × AttributeValue)) : Caches × Report :=
  let grants := (caches.knownAmong (rows.own job)).screenGrants rows.grants
  let index := caches.roles.replaceJob job (rows.own job)
  let granted := caches.grants.replaceRows (caches.affected job rows) grants.entries
  let given := caches.values.replaceRows (caches.affected job rows) values.entries
  let limited := caches.ceilings.replaceRows [job]
    (ceilings.toCeilings.toList.map fun entry => (entry.1.1, entry.1.2, entry.2))
  ({ catalog := caches.catalog, roles := index.1, grants := granted.1, values := given.1,
     ceilings := limited.1 },
    .ofTally index.2 + (.ofScreened grants + .ofTally granted.2) +
      (.ofScreened values + .ofTally given.2) + (.ofScreened ceilings + .ofTally limited.2))

/-- A job is reloaded exactly when its ceilings and values can be screened. -/
theorem reloadJob_eq_ok_iff {result : Caches × Report} :
    caches.reloadJob job rows = .ok result ↔ ∃ ceilings values,
      (caches.knownAmong (rows.own job)).screenCeilings (rows.ceilings.filter (·.job = job)) =
        .ok ceilings ∧
      (caches.knownAmong (rows.own job)).screenValues
        (fun job attr => ceilings.toCeilings[(job, attr)]?) rows.values = .ok values ∧
      caches.commitJob job rows ceilings values = result := by
  constructor
  · intro h
    obtain ⟨ceilings, hceilings, h⟩ := bind_eq_ok_iff.mp h
    obtain ⟨values, hvalues, h⟩ := bind_eq_ok_iff.mp h
    exact ⟨ceilings, values, hceilings, hvalues, Except.ok.inj h⟩
  · rintro ⟨ceilings, values, hceilings, hvalues, rfl⟩
    exact bind_eq_ok_iff.mpr ⟨ceilings, hceilings, bind_eq_ok_iff.mpr ⟨values, hvalues, rfl⟩⟩

end Caches

end GradedAccess
