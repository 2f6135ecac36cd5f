import GradedAccess.Proofs.Reload.Job

/-!
# Listings that agree about what was asked for

A loader asks for the rows of one role, or of one job, and a store may answer with others as well,
or with the same ones several times.  Such listings agree with what was asked for in the sense of
`SameFor`: the rows of the role are there, once or several times, and whatever else is listed is of
no account.

Two reloads whose listings agree about every role that is known to them succeed together, and leave
the same caches.  Which roles are known is up to the screening: the role that is reloaded, or the
roles of the job that is reloaded.  That rows may repeat does no harm, since it is the last row of a
key that counts.
-/

namespace GradedAccess

open Std (ExtTreeMap)

/-! ## Lists that repeat others -/

section Repeats

variable {ρ δ : Type}

/-- Whether a list is another one, once or several times. -/
def Repeats (once rows : List ρ) : Prop := ∃ n ≠ 0, rows = (List.replicate n once).flatten

theorem Repeats.refl (once : List ρ) : Repeats once once :=
  ⟨1, Nat.one_ne_zero, by simp⟩

theorem Repeats.mem_iff {once rows : List ρ} (h : Repeats once rows) {row : ρ} :
    row ∈ rows ↔ row ∈ once := by
  obtain ⟨n, hn, rfl⟩ := h
  simp [hn]

theorem Repeats.filterMap {once rows : List ρ} (h : Repeats once rows) (entry : ρ → Option δ) :
    Repeats (once.filterMap entry) (rows.filterMap entry) := by
  obtain ⟨n, hn, rfl⟩ := h
  refine ⟨n, hn, ?_⟩
  rw [List.filterMap_flatten, List.map_replicate]

namespace PairTable

variable {β γ : Type} [DecidableEq β]

theorem lastFor_append (key : β) (rows rows' : List (β × γ)) :
    lastFor key (rows ++ rows') = (lastFor key rows').or (lastFor key rows) := by
  induction rows with
  | nil => rw [List.nil_append, lastFor_nil, Option.or_none]
  | cons row rows ih => rw [List.cons_append, lastFor, lastFor, ih, Option.or_assoc]

/-- The last row with a key is the same if the rows are repeated. -/
theorem lastFor_of_repeats {once rows : List (β × γ)} (h : Repeats once rows) (key : β) :
    lastFor key rows = lastFor key once := by
  obtain ⟨n, hn, rfl⟩ := h
  obtain ⟨n, rfl⟩ := Nat.exists_eq_succ_of_ne_zero hn
  induction n with
  | zero => simp
  | succ n ih =>
    rw [List.replicate_succ, List.flatten_cons, lastFor_append, ih n.succ_ne_zero, Option.or_self]

end PairTable

/-- Whether two listings agree about what belongs to one role. -/
def SameFor (owner : ρ → RoleId) (id : RoleId) (rows rows' : List ρ) : Prop :=
  ∃ once, Repeats once (rows.filter (owner · = id)) ∧ Repeats once (rows'.filter (owner · = id))

namespace SameFor

variable {owner : ρ → RoleId} {id : RoleId} {rows rows' : List ρ}

theorem symm (h : SameFor owner id rows rows') : SameFor owner id rows' rows :=
  h.imp fun _ => And.symm

/-- Listings that agree about a role have the same rows of that role. -/
theorem mem_of_mem (h : SameFor owner id rows rows') {row : ρ} (hmem : row ∈ rows)
    (howner : owner row = id) : row ∈ rows' := by
  obtain ⟨once, honce, honce'⟩ := h
  have hown : row ∈ rows.filter (owner · = id) :=
    List.mem_filter.mpr ⟨hmem, decide_eq_true howner⟩
  rw [honce.mem_iff, ← honce'.mem_iff] at hown
  exact (List.mem_filter.mp hown).1

/-- What is made of listings that agree about a role has the same last entries for that role. -/
theorem lastFor_eq {β γ : Type} [DecidableEq β] (h : SameFor owner id rows rows')
    {entry : ρ → Option (RoleId × β × γ)}
    (howner : ∀ row made, entry row = some made → made.1 = owner row) (key : β) :
    PairTable.lastFor key (PairTable.freshRow (rows.filterMap entry) id) =
      PairTable.lastFor key (PairTable.freshRow (rows'.filterMap entry) id) := by
  obtain ⟨once, honce, honce'⟩ := h
  rw [PairTable.freshRow_filterMap entry owner howner,
    PairTable.freshRow_filterMap entry owner howner]
  rw [PairTable.lastFor_of_repeats (honce.filterMap _),
    PairTable.lastFor_of_repeats (honce'.filterMap _)]

/-- If listings agree about all roles that entries can be for, the entries made of them leave the
same tables. -/
theorem replaceRows_eq {β γ : Type} [DecidableEq β] [Ord β] [Std.TransOrd β] [Std.LawfulEqOrd β]
    {Knows : RoleId → Prop} {named : List RoleId} {entry : ρ → Option (RoleId × β × γ)}
    (hsame : ∀ id, Knows id → SameFor owner id rows rows') (hnamed : ∀ id, Knows id → id ∈ named)
    (howner : ∀ row made, entry row = some made → made.1 = owner row)
    (hknown : ∀ row made, entry row = some made → Knows made.1) (table : PairTable RoleId β γ) :
    (table.replaceRows named (rows.filterMap entry)).1 =
      (table.replaceRows named (rows'.filterMap entry)).1 := by
  have hfresh : ∀ (rows : List ρ), ∀ made ∈ rows.filterMap entry, Knows made.1 := by
    intro rows made hmade
    obtain ⟨row, -, hentry⟩ := List.mem_filterMap.mp hmade
    exact hknown row made hentry
  refine ExtTreeMap.ext_getElem? fun ⟨id, key⟩ => ?_
  rw [
    PairTable.getElem?_replaceRows_of_named table fun made hmade => hnamed _ (hfresh _ made hmade),
    PairTable.getElem?_replaceRows_of_named table fun made hmade => hnamed _ (hfresh _ made hmade)]
  by_cases hid : Knows id
  · rw [(hsame id hid).lastFor_eq howner]
  · have hnone : ∀ rows : List ρ, PairTable.freshRow (rows.filterMap entry) id = [] := by
      intro rows
      refine PairTable.freshRow_eq_nil fun hmem => ?_
      obtain ⟨made, hmade, rfl⟩ := List.mem_map.mp hmem
      exact hid (hfresh rows made hmade)
    rw [hnone, hnone]

end SameFor

end Repeats

/-! ## Screenings of listings that agree -/

namespace Known

variable {known : Known} {ceiling : String → AttributeId → Option AttributeValue}
variable {named : List RoleId}

/-- Whether a role is known. -/
def Knows (known : Known) (id : RoleId) : Prop := (known.jobOf id).isSome

theorem knows_of_grantEntry {row : Grant} {entry : RoleId × PermissionId × Bool}
    (h : Verdict.entry? (known.grantVerdict row) = some entry) : known.Knows entry.1 := by
  rw [role_of_grantEntry h]
  rw [grantVerdict] at h
  split at h
  · next hknown =>
    rw [Bool.and_eq_true] at hknown
    exact hknown.1
  · cases h

theorem knows_of_valueEntry {row : RoleValue} {entry : RoleId × AttributeId × AttributeValue}
    (h : known.valueEntry ceiling row = some entry) : known.Knows entry.1 := by
  rw [role_of_valueEntry h]
  rw [valueEntry, Option.bind_eq_some_iff] at h
  obtain ⟨job, hjob, -⟩ := h
  rw [Knows, hjob, Option.isSome_some]

/-- Listings that agree about all known roles leave the same grants. -/
theorem replaceRows_screenGrants {rows rows' : List Grant}
    (hsame : ∀ id, known.Knows id → SameFor (·.role) id rows rows')
    (hnamed : ∀ id, known.Knows id → id ∈ named) (table : PairTable RoleId PermissionId Bool) :
    (table.replaceRows named (known.screenGrants rows).entries).1 =
      (table.replaceRows named (known.screenGrants rows').entries).1 := by
  rw [entries_screenGrants, entries_screenGrants]
  exact SameFor.replaceRows_eq hsame hnamed (fun _ _ => role_of_grantEntry)
    (fun _ _ => knows_of_grantEntry) table

/-- Listings that agree about all known roles are screened alike, and leave the same values. -/
theorem replaceRows_screenValues {rows rows' : List RoleValue}
    (hsame : ∀ id, known.Knows id → SameFor (·.role) id rows rows')
    (hnamed : ∀ id, known.Knows id → id ∈ named)
    {screened : Screened (RoleId × AttributeId × AttributeValue)}
    (h : known.screenValues ceiling rows = .ok screened)
    (table : PairTable RoleId AttributeId AttributeValue) :
    ∃ screened', known.screenValues ceiling rows' = .ok screened' ∧
      (table.replaceRows named screened'.entries).1 =
        (table.replaceRows named screened.entries).1 := by
  obtain ⟨hfits, hentries⟩ := exists_screenValues_iff.mp ⟨screened, h, rfl⟩
  -- a row of an unknown role fits whatever its value is, and the others are listed in both
  have hfits' : ∀ row ∈ rows', known.ValueFits ceiling row := by
    intro row hmem job attr hjob hattr
    have hrole : known.Knows row.role := by rw [Knows, hjob, Option.isSome_some]
    exact hfits row ((hsame row.role hrole).symm.mem_of_mem hmem rfl) job attr hjob hattr
  obtain ⟨screened', hscreened', hentries'⟩ := exists_screenValues_iff.mpr ⟨hfits', rfl⟩
  refine ⟨screened', hscreened', ?_⟩
  rw [hentries, hentries']
  exact SameFor.replaceRows_eq (fun id hid => (hsame id hid).symm) hnamed
    (fun _ _ => role_of_valueEntry) (fun _ _ => knows_of_valueEntry) table

end Known

/-! ## Reloads of listings that agree -/

namespace Caches

variable {caches caches' : Caches} {id : RoleId} {job : String} {report : Report}

/-- For a role's reload only that role is known. -/
theorem eq_of_knows_knownFor {row : Role} {id' : RoleId} (h : (caches.knownFor id row).Knows id') :
    id' = id := by
  obtain ⟨job, hjob⟩ := Option.isSome_iff_exists.mp h
  exact (Option.ite_none_right_eq_some.mp hjob).1

/-- For a job's reload only the roles of the job are known. -/
theorem mem_of_knows_knownAmong {roles : List Role} (h : (caches.knownAmong roles).Knows id) :
    id ∈ roles.map (·.id) := by
  obtain ⟨job, hjob⟩ := Option.isSome_iff_exists.mp h
  obtain ⟨row, hrow, hid, -⟩ := of_jobOf_knownAmong hjob
  exact List.mem_map.mpr ⟨row, hrow, hid⟩

theorem mem_of_knows_knownFor {row : Role} {id' : RoleId}
    (h : (caches.knownFor id row).Knows id') : id' ∈ [id] :=
  List.mem_singleton.mpr (eq_of_knows_knownFor h)

/-- What a listing makes of the grants of a role, another that agrees about the role makes too. -/
theorem reloadGrants_same {role : Option Role} {rows rows' : List Grant}
    (hsame : SameFor (·.role) id rows rows')
    (h : caches.reloadGrants id role rows = (caches', report)) :
    ∃ report', caches.reloadGrants id role rows' = (caches', report') := by
  cases role with
  | none => exact ⟨report, h⟩
  | some row =>
    have hgrants := Known.replaceRows_screenGrants
      (fun id' (hid : (caches.knownFor id row).Knows id') => eq_of_knows_knownFor hid ▸ hsame)
      (fun _ => mem_of_knows_knownFor) caches.grants
    refine ⟨_, Prod.ext ?_ rfl⟩
    rw [← congrArg Prod.fst h]
    exact congrArg (fun grants => { caches with roles := caches.roles.upsert row, grants })
      hgrants.symm

/-- What a listing makes of the values of a role, another that agrees about the role makes too. -/
theorem reloadValues_same {role : Option Role} {rows rows' : List RoleValue}
    (hsame : SameFor (·.role) id rows rows')
    (h : caches.reloadValues id role rows = .ok (caches', report)) :
    ∃ report', caches.reloadValues id role rows' = .ok (caches', report') := by
  cases role with
  | none => exact ⟨report, h⟩
  | some row =>
    obtain ⟨screened, hscreened, hcommit⟩ := bind_eq_ok_iff.mp h
    obtain ⟨screened', hscreened', hvalues⟩ := Known.replaceRows_screenValues
      (fun id' (hid : (caches.knownFor id row).Knows id') => eq_of_knows_knownFor hid ▸ hsame)
      (fun _ => mem_of_knows_knownFor) hscreened caches.values
    refine ⟨_, bind_eq_ok_iff.mpr ⟨screened', hscreened', congrArg Except.ok (Prod.ext ?_ rfl)⟩⟩
    rw [← congrArg Prod.fst (Except.ok.inj hcommit)]
    exact congrArg (fun values => { caches with roles := caches.roles.upsert row, values }) hvalues

/-- What the rows of a job make of the caches, other rows make too that have the same roles and
ceilings of the job and agree about each of these roles. -/
theorem reloadJob_same {rows rows' : JobRows} (hroles : rows.own job = rows'.own job)
    (hceilings : rows.ceilings.filter (·.job = job) = rows'.ceilings.filter (·.job = job))
    (hgrants : ∀ row ∈ rows.own job, SameFor (·.role) row.id rows.grants rows'.grants)
    (hvalues : ∀ row ∈ rows.own job, SameFor (·.role) row.id rows.values rows'.values)
    (h : caches.reloadJob job rows = .ok (caches', report)) :
    ∃ report', caches.reloadJob job rows' = .ok (caches', report') := by
  obtain ⟨ceilings, values, hscreened, hscreened', hcommit⟩ := reloadJob_eq_ok_iff.mp h
  have haffected : caches.affected job rows' = caches.affected job rows := by
    rw [affected, affected, hroles]
  have hnamed : ∀ id, (caches.knownAmong (rows.own job)).Knows id → id ∈ caches.affected job rows :=
    fun id hid => List.mem_append_right _ (mem_of_knows_knownAmong hid)
  have hsameGrants : ∀ id, (caches.knownAmong (rows.own job)).Knows id →
      SameFor (·.role) id rows.grants rows'.grants := by
    intro id hid
    obtain ⟨row, hrow, rfl⟩ := List.mem_map.mp (mem_of_knows_knownAmong hid)
    exact hgrants row hrow
  have hsameValues : ∀ id, (caches.knownAmong (rows.own job)).Knows id →
      SameFor (·.role) id rows.values rows'.values := by
    intro id hid
    obtain ⟨row, hrow, rfl⟩ := List.mem_map.mp (mem_of_knows_knownAmong hid)
    exact hvalues row hrow
  obtain ⟨values', hvalues', hgiven⟩ :=
    Known.replaceRows_screenValues hsameValues hnamed hscreened' caches.values
  have hgranted := Known.replaceRows_screenGrants hsameGrants hnamed caches.grants
  have hcaches' := congrArg Prod.fst hcommit
  refine ⟨_, reloadJob_eq_ok_iff.mpr ⟨ceilings, values', ?_, ?_, Prod.ext ?_ rfl⟩⟩
  · rwa [← hroles, ← hceilings]
  · rwa [← hroles]
  · rw [← hcaches', commitJob, commitJob, haffected, ← hroles, hgiven, ← hgranted]

end Caches

end GradedAccess
