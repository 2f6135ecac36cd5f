import GradedAccess.Proofs.Limits.Session
import GradedAccess.Proofs.Scope.Events

/-!
# Caches over any stores

What loaders can make of caches when nothing is known of the stores.  Every call of a loader comes
with a store of its own in a state of its own (`LoaderCall`).  So the store may change between two
calls in any way, and during a call it does whatever its answers say: it may fail, give no answer,
list a row twice, or contradict what it has said before.

Of the catalog one thing can be said all the same.  A full load replaces its permissions and guards
together, and nothing else touches them.  So they are those of one listing (`exists_listing`), and
what the listings of all loads have in common is true of it.
-/

namespace GradedAccess

/-! ## Listings -/

namespace Catalog

variable {catalog : Catalog} {rows : List Permission}

/-- Whether the permissions and the guards of a catalog are those of a listing. -/
structure ListedFrom (catalog : Catalog) (rows : List Permission) : Prop where
  permission : ∀ id, catalog.permission id =
    PairTable.lastFor id (rows.map fun row => (row.id, row))
  permissionId : ∀ guard, catalog.permissionId guard =
    PairTable.lastFor guard (rows.map fun row => (row.guard, row.id))

theorem listedFrom_nil : ListedFrom {} [] where
  permission id := by simp [Catalog.permission]
  permissionId guard := by simp [Catalog.permissionId]

theorem listedFrom_replacePermissions (catalog : Catalog) (rows : List Permission) :
    (catalog.replacePermissions rows).1.ListedFrom rows where
  permission id := PairTable.getElem?_ofList _ id
  permissionId guard := PairTable.getElem?_ofList _ guard

/-- A permission that is found was listed under its number. -/
theorem ListedFrom.of_permission (h : catalog.ListedFrom rows) {id : PermissionId}
    {row : Permission} (hrow : catalog.permission id = some row) : row ∈ rows ∧ row.id = id := by
  rw [h.permission] at hrow
  obtain ⟨listed, hmem, heq⟩ := List.mem_map.mp (PairTable.mem_of_lastFor hrow)
  obtain ⟨rfl, rfl⟩ := Prod.mk.inj heq
  exact ⟨hmem, rfl⟩

/-- If no number was listed twice, all listed permissions are found. -/
theorem ListedFrom.permission_of_mem (h : catalog.ListedFrom rows)
    (hids : rows.Pairwise fun a b => a.id ≠ b.id) {row : Permission} (hmem : row ∈ rows) :
    catalog.permission row.id = some row := by
  rw [h.permission, PairTable.lastFor_eq_some_iff (List.pairwise_map.mpr hids)]
  exact List.mem_map_of_mem hmem

/-- The guard of a permission that is found leads to a listed permission that has it. -/
theorem ListedFrom.exists_permissionId (h : catalog.ListedFrom rows) {id : PermissionId}
    {row : Permission} (hrow : catalog.permission id = some row) :
    ∃ other ∈ rows, other.guard = row.guard ∧ catalog.permissionId row.guard = some other.id := by
  have hkey : (row.guard, row.id) ∈ rows.map fun row => (row.guard, row.id) :=
    List.mem_map_of_mem (h.of_permission hrow).1
  obtain ⟨last, hlast⟩ := PairTable.exists_lastFor hkey
  obtain ⟨other, hmem, heq⟩ := List.mem_map.mp (PairTable.mem_of_lastFor hlast)
  obtain ⟨hguard, rfl⟩ := Prod.mk.inj heq
  exact ⟨other, hmem, hguard, (h.permissionId row.guard).trans hlast⟩

end Catalog

/-! ## Calls -/

/-- A call of a loader, with the store it is made over and the state this store is in. -/
structure LoaderCall where
  {σ : Type}
  source : Source σ
  state : σ
  call : Session.Call

namespace LoaderCall

/-- The caches after a call. -/
def after (made : LoaderCall) (caches : Caches) : Caches :=
  (made.call.via made.source ⟨caches, made.state⟩).caches

/-- Whether something is true of the permissions that are listed for a call.  Only a full load
lists permissions and brings them into the caches. -/
def Lists (listing : List Permission → Prop) (made : LoaderCall) : Prop :=
  ∀ rows, made.call = .reload .all → (made.source.fetchAll made.state).1 = .ok rows →
    listing rows.permissions

end LoaderCall

/-- The caches after some calls of loaders from nothing. -/
def Caches.reached (calls : List LoaderCall) : Caches :=
  calls.foldl (fun caches made => made.after caches) {}

@[simp] theorem Caches.reached_concat (calls : List LoaderCall) (last : LoaderCall) :
    Caches.reached (calls ++ [last]) = last.after (Caches.reached calls) := by
  simp [Caches.reached]

/-! ## What a call does to the catalog -/

section Catalog

variable {σ α : Type} (source : Source σ)

/-- Whether a load leaves the catalog as it is. -/
def Load.KeepsCatalog (program : Load σ α) : Prop :=
  Fetch.Relates (fun loaded loaded' => loaded'.caches.catalog = loaded.caches.catalog) program

/-- A fetch and a commit leave the catalog if the commit does. -/
theorem Load.keepsCatalog_fetch_commit {program : Load σ Report} {fetch : Fetch σ α}
    {change : α → Caches → Except Fault (Caches × Report)}
    (hprogram : program = Load.ofFetch fetch >>= fun rows => Load.commit (change rows))
    (h : ∀ {rows caches caches' report}, change rows caches = .ok (caches', report) →
      caches'.catalog = caches.catalog) : Load.KeepsCatalog program :=
  Load.relates_caches hprogram (fun caches caches' => caches'.catalog = caches.catalog)
    (fun _ => rfl) h

theorem Source.keepsCatalog_reloadGrants (id : RoleId) :
    Load.KeepsCatalog (source.reloadGrants id) := by
  refine Load.keepsCatalog_fetch_commit (source.reloadGrants_eq id)
    fun {rows caches caches' report} hchange => ?_
  have hkeeps := caches.keepsBeyond_reloadGrants (fun _ => False) id rows.1 rows.2
  rw [Except.ok.inj hchange] at hkeeps
  exact hkeeps.catalog

theorem Source.keepsCatalog_reloadValues (id : RoleId) :
    Load.KeepsCatalog (source.reloadValues id) := by
  refine Load.keepsCatalog_fetch_commit (source.reloadValues_eq id)
    fun {rows caches caches' report} hchange => ?_
  have hkeeps : caches.KeepsBeyond (· = id) (fun _ => False) caches' :=
    Caches.keepsBeyond_reloadValues hchange
  exact hkeeps.catalog

theorem Source.keepsCatalog_reloadJob (job : String) :
    Load.KeepsCatalog (source.reloadJob job) :=
  Load.keepsCatalog_fetch_commit (source.reloadJob_eq job) fun hchange =>
    (Caches.keepsBeyond_reloadJob hchange).catalog

theorem Source.keepsCatalog_reloadRole (id : RoleId) :
    Load.KeepsCatalog (source.reloadRole id) := by
  refine .bind (fun _ _ _ h h' => h'.trans h) (source.keepsCatalog_reloadGrants id) fun _ => ?_
  exact .bind (fun _ _ _ h h' => h'.trans h) (source.keepsCatalog_reloadValues id) fun _ _ => rfl

end Catalog

/-- A call leaves the catalog as it is, unless it is a full load that succeeds. -/
theorem LoaderCall.catalog_after (made : LoaderCall) (caches : Caches) :
    (made.after caches).catalog = caches.catalog ∨
      ∃ rows report, made.call = .reload .all ∧ (made.source.fetchAll made.state).1 = .ok rows ∧
        caches.load rows = .ok (made.after caches, report) := by
  obtain ⟨source, state, call⟩ := made
  cases call with
  | reload scope =>
    cases scope with
    | all =>
      rcases (Load.fetch_commit_cases source.loadAll_eq ⟨caches, state⟩).2 with
        hkept | ⟨rows, report, hrows, hload⟩
      · exact Or.inl (congrArg _ hkept)
      · exact Or.inr ⟨rows, report, rfl, hrows, hload⟩
    | role id => exact Or.inl (source.keepsCatalog_reloadRole id _)
    | job job => exact Or.inl (source.keepsCatalog_reloadJob job _)
  | apply event =>
    cases event with
    | roleGrants id => exact Or.inl (source.keepsCatalog_reloadGrants id _)
    | roleValues id => exact Or.inl (source.keepsCatalog_reloadValues id _)
    | jobCeilings job => exact Or.inl (source.keepsCatalog_reloadJob job _)
  | enrol registry => exact Or.inl rfl

/-- If the permissions and guards of a catalog are those of one listing, they are so after a call.
What is true of the listing stays true if it is true of what is listed for the call. -/
theorem LoaderCall.exists_listing_after (made : LoaderCall) {listing : List Permission → Prop}
    (hmade : made.Lists listing) {caches : Caches}
    (h : ∃ rows, caches.catalog.ListedFrom rows ∧ listing rows) :
    ∃ rows, (made.after caches).catalog.ListedFrom rows ∧ listing rows := by
  rcases made.catalog_after caches with hkept | ⟨rows, report, hall, hrows, hload⟩
  · rwa [hkept]
  · refine ⟨rows.permissions, ?_, hmade rows hall hrows⟩
    obtain ⟨_, _, -, -, hafter⟩ := Caches.load_eq_ok hload
    have hlisted := caches.catalog.listedFrom_replacePermissions rows.permissions
    -- replacing the attributes afterwards leaves permissions and guards alone
    rw [hafter]
    exact ⟨hlisted.permission, hlisted.permissionId⟩

/-- The permissions and guards of a catalog are those of one listing, of which everything is true
that is true of all listings. -/
theorem Caches.exists_listing (listing : List Permission → Prop) (hnil : listing [])
    {calls : List LoaderCall} (h : ∀ made ∈ calls, made.Lists listing) :
    ∃ rows, (Caches.reached calls).catalog.ListedFrom rows ∧ listing rows := by
  induction calls using List.reverseRecOn with
  | nil => exact ⟨[], Catalog.listedFrom_nil, hnil⟩
  | append_singleton calls last ih =>
    rw [List.forall_mem_append] at h
    rw [reached_concat]
    exact last.exists_listing_after (h.2 last (List.mem_singleton_self last)) (ih h.1)

end GradedAccess
