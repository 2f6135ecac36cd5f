import GradedAccess.Proofs.Scope.Listing
import GradedAccess.Proofs.Store.Plain
import Mathlib.Tactic.Choose

/-!
# Reloads keep to their scope

The reload an event leads to asks for the rows of one role or of one job.  A store may ignore that
and list all rows it has, always or only for some requests.  It makes no difference to the caches,
nor to whether the reload succeeds; and outside of its scope a reload leaves everything alone.  Both
hold for a store of plain lists and whatever rows it has: they may repeat, contradict each other, be
of the wrong kind and refer to nothing.

The scope of a role's reload is the role.  The scope of a job's reload is the job, the roles that
are listed for it, and the roles that had its slots before (`Event.Reaches`).
-/

namespace GradedAccess

/-! ## What a reload leaves alone -/

/-- Whether caches are as before, except for what is set for some roles and the ceilings of some
jobs. -/
structure Caches.KeepsBeyond (role : RoleId → Prop) (job : String → Prop) (before after : Caches) :
    Prop where
  catalog : after.catalog = before.catalog
  grants : ∀ id, ¬role id → ∀ permission, after.grant id permission = before.grant id permission
  values : ∀ id, ¬role id → ∀ attr, after.value id attr = before.value id attr
  ceilings : ∀ name, ¬job name → ∀ attr, after.ceiling name attr = before.ceiling name attr

namespace Caches

variable {caches caches' : Caches} {id : RoleId} {job : String} {report : Report}
variable {role : RoleId → Prop} {jobs : String → Prop}

theorem KeepsBeyond.refl (caches : Caches) : caches.KeepsBeyond role jobs caches where
  catalog := rfl
  grants _ _ _ := rfl
  values _ _ _ := rfl
  ceilings _ _ _ := rfl

/-- What is left alone may be more than is said. -/
theorem KeepsBeyond.mono {role' : RoleId → Prop} {jobs' : String → Prop}
    (h : caches.KeepsBeyond role jobs caches') (hrole : ∀ id, role id → role' id)
    (hjobs : ∀ name, jobs name → jobs' name) : caches.KeepsBeyond role' jobs' caches' where
  catalog := h.catalog
  grants id hnot := h.grants id fun hid => hnot (hrole id hid)
  values id hnot := h.values id fun hid => hnot (hrole id hid)
  ceilings name hnot := h.ceilings name fun hname => hnot (hjobs name hname)

/-- Dropping a role leaves what is set for others. -/
theorem keepsBeyond_forget (caches : Caches) (id : RoleId) :
    caches.KeepsBeyond (· = id) jobs (caches.forget id).1 where
  catalog := rfl
  grants role hne permission :=
    (PairTable.getElem?_replaceRow caches.grants id [] role permission).trans (if_neg hne)
  values role hne attr :=
    (PairTable.getElem?_replaceRow caches.values id [] role attr).trans (if_neg hne)
  ceilings _ _ _ := rfl

/-- Reloading the grants of a role leaves what is set for others, whatever has been listed. -/
theorem keepsBeyond_reloadGrants (caches : Caches) (jobs : String → Prop) (id : RoleId)
    (row : Option Role) (rows : List Grant) :
    caches.KeepsBeyond (· = id) jobs (caches.reloadGrants id row rows).1 := by
  cases row with
  | none => exact caches.keepsBeyond_forget id
  | some row =>
    have hnamed : ∀ entry ∈ ((caches.knownFor id row).screenGrants rows).entries,
        entry.1 ∈ [id] := by
      intro entry hentry
      rw [Known.entries_screenGrants, List.mem_filterMap] at hentry
      obtain ⟨grant, -, hentry⟩ := hentry
      exact List.mem_singleton.mpr (eq_of_knows_knownFor (Known.knows_of_grantEntry hentry))
    refine ⟨rfl, ?_, fun _ _ _ => rfl, fun _ _ _ => rfl⟩
    intro role hne permission
    refine (PairTable.getElem?_replaceRows_of_named caches.grants hnamed role permission).trans ?_
    exact if_neg fun hmem => hne (List.mem_singleton.mp hmem)

/-- Reloading the values of a role leaves what is set for others, whatever has been listed. -/
theorem keepsBeyond_reloadValues {row : Option Role} {rows : List RoleValue}
    (h : caches.reloadValues id row rows = .ok (caches', report)) :
    caches.KeepsBeyond (· = id) jobs caches' := by
  cases row with
  | none =>
    cases h
    exact caches.keepsBeyond_forget id
  | some row =>
    obtain ⟨screened, hscreened, hcommit⟩ := bind_eq_ok_iff.mp h
    obtain ⟨-, hentries⟩ := Known.exists_screenValues_iff.mp ⟨screened, hscreened, rfl⟩
    have hnamed : ∀ entry ∈ screened.entries, entry.1 ∈ [id] := by
      intro entry hentry
      rw [hentries, List.mem_filterMap] at hentry
      obtain ⟨value, -, hentry⟩ := hentry
      exact List.mem_singleton.mpr (eq_of_knows_knownFor (Known.knows_of_valueEntry hentry))
    cases hcommit
    refine ⟨rfl, fun _ _ _ => rfl, ?_, fun _ _ _ => rfl⟩
    intro role hne attr
    refine (PairTable.getElem?_replaceRows_of_named caches.values hnamed role attr).trans ?_
    exact if_neg fun hmem => hne (List.mem_singleton.mp hmem)

/-- Reloading a job leaves what is set for roles that neither had a slot of the job nor were listed
for it, and the ceilings of other jobs. -/
theorem keepsBeyond_reloadJob {rows : JobRows}
    (h : caches.reloadJob job rows = .ok (caches', report)) :
    caches.KeepsBeyond (· ∈ caches.affected job rows) (· = job) caches' := by
  obtain ⟨ceilings, values, hceilings, hvalues, hcommit⟩ := reloadJob_eq_ok_iff.mp h
  obtain ⟨-, hentries⟩ := Known.exists_screenValues_iff.mp ⟨values, hvalues, rfl⟩
  have haffected : ∀ {id}, (caches.knownAmong (rows.own job)).Knows id →
      id ∈ caches.affected job rows := fun hid =>
    List.mem_append_right _ (mem_of_knows_knownAmong hid)
  have hgrants : ∀ entry ∈ ((caches.knownAmong (rows.own job)).screenGrants rows.grants).entries,
      entry.1 ∈ caches.affected job rows := by
    intro entry hentry
    rw [Known.entries_screenGrants, List.mem_filterMap] at hentry
    obtain ⟨grant, -, hentry⟩ := hentry
    exact haffected (Known.knows_of_grantEntry hentry)
  have hgiven : ∀ entry ∈ values.entries, entry.1 ∈ caches.affected job rows := by
    intro entry hentry
    rw [hentries, List.mem_filterMap] at hentry
    obtain ⟨value, -, hentry⟩ := hentry
    exact haffected (Known.knows_of_valueEntry hentry)
  cases hcommit
  refine { catalog := rfl, grants := ?_, values := ?_, ceilings := ?_ }
  · intro role hnot permission
    exact (PairTable.getElem?_replaceRows_of_named caches.grants hgrants role permission).trans
      (if_neg hnot)
  · intro role hnot attr
    exact (PairTable.getElem?_replaceRows_of_named caches.values hgiven role attr).trans
      (if_neg hnot)
  · intro name hne attr
    exact (getElem?_replaceRows_ceilings caches.ceilings
      (fun _ _ _ hmost => job_of_toCeilings hceilings hmost) name attr).trans (if_neg hne)

end Caches

/-! ## Fetching from a store that ignores what it is asked about -/

/-- A request without the role or the job it is about. -/
def Request.unscoped {α : Type} : Request α → Request α
  | .roles _ => .roles none
  | .grants _ => .grants none
  | .values _ => .values none
  | .ceilings _ => .ceilings none
  | request => request

/-- Whether rows are a listing for one owner: only those of the owner, or all there are. -/
def IsListing {ρ κ : Type} [DecidableEq κ] (owner : ρ → κ) (asked : κ) (all rows : List ρ) : Prop :=
  rows = all ∨ rows = all.filter (owner · = asked)

namespace IsListing

variable {ρ κ : Type} [DecidableEq κ] {owner : ρ → κ} {asked : κ} {all rows : List ρ}

/-- What was asked for is in a listing. -/
theorem filter_self (h : IsListing owner asked all rows) :
    rows.filter (owner · = asked) = all.filter (owner · = asked) := by
  rcases h with rfl | rfl
  · rfl
  · rw [List.filter_filter]
    simp only [Bool.and_self]

/-- Of another owner a listing has either all rows, or none. -/
theorem filter_cases (h : IsListing owner asked all rows) (other : κ) :
    rows.filter (owner · = other) = all.filter (owner · = other) ∨
      asked ≠ other ∧ rows.filter (owner · = other) = [] := by
  by_cases heq : asked = other
  · exact Or.inl (heq ▸ h.filter_self)
  · rcases h with rfl | rfl
    · exact Or.inl rfl
    · refine Or.inr ⟨heq, List.filter_eq_nil_iff.mpr fun row hmem hrow => heq ?_⟩
      have hasked : owner row = asked := of_decide_eq_true (List.mem_filter.mp hmem).2
      exact hasked.symm.trans (of_decide_eq_true hrow)

end IsListing

/-- Listings for one role after another have the rows of each of these roles, once or several
times. -/
theorem repeats_flatMap {ρ : Type} {owner : ρ → RoleId} {all : List ρ} {roles : List Role}
    {listing : Role → List ρ} (hlisting : ∀ role, IsListing owner role.id all (listing role))
    {id : RoleId} (hid : ∃ role ∈ roles, role.id = id) :
    Repeats (all.filter (owner · = id)) ((roles.flatMap listing).filter (owner · = id)) := by
  have hsome : ∀ roles : List Role, ∃ n, (roles.flatMap listing).filter (owner · = id) =
        (List.replicate n (all.filter (owner · = id))).flatten ∧
      ((∃ role ∈ roles, role.id = id) → n ≠ 0) := by
    intro roles
    induction roles with
    | nil => exact ⟨0, rfl, nofun⟩
    | cons role roles ih =>
      obtain ⟨n, hrest, hn⟩ := ih
      rw [List.flatMap_cons, List.filter_append, hrest]
      rcases (hlisting role).filter_cases id with hall | ⟨hne, hnone⟩
      · rw [hall]
        exact ⟨n + 1, rfl, fun _ => n.succ_ne_zero⟩
      · rw [hnone]
        refine ⟨n, rfl, ?_⟩
        rintro ⟨other, hmem, rfl⟩
        rcases List.mem_cons.mp hmem with rfl | hmem
        · exact absurd rfl hne
        · exact hn ⟨other, hmem, rfl⟩
  obtain ⟨n, hrows, hn⟩ := hsome roles
  exact ⟨n, hn hid, hrows⟩

/-- Whether the rows fetched for a job are listings of the rows of a store: of the job, and of the
roles that are listed. -/
structure Caches.JobRows.ListedFrom (fetched : JobRows) (rows : Rows) (job : String) : Prop where
  roles : IsListing Role.job job rows.roles fetched.roles
  ceilings : IsListing Ceiling.job job rows.ceilings fetched.ceilings
  grants : ∃ listing, fetched.grants = fetched.roles.flatMap listing ∧
    ∀ role : Role, IsListing Grant.role role.id rows.grants (listing role)
  values : ∃ listing, fetched.values = fetched.roles.flatMap listing ∧
    ∀ role : Role, IsListing RoleValue.role role.id rows.values (listing role)

namespace Caches.JobRows.ListedFrom

variable {fetched fetched' : JobRows} {rows : Rows} {job : String}

/-- The roles of a job that are used are those the store has for the job. -/
theorem own_eq (h : fetched.ListedFrom rows job) :
    fetched.own job = rows.roles.filter (·.job = job) :=
  h.roles.filter_self

/-- What is fetched for a job is fetched from all stores with the same rows alike. -/
theorem reloadJob_same (h : fetched.ListedFrom rows job) (h' : fetched'.ListedFrom rows job)
    {caches caches' : Caches} {report : Report}
    (hchange : caches.reloadJob job fetched = .ok (caches', report)) :
    ∃ report', caches.reloadJob job fetched' = .ok (caches', report') := by
  have hown : fetched.own job = fetched'.own job := h.own_eq.trans h'.own_eq.symm
  refine Caches.reloadJob_same hown (h.ceilings.filter_self.trans h'.ceilings.filter_self.symm)
    (fun row hrow => ?_) (fun row hrow => ?_) hchange
  · obtain ⟨listing, hgrants, hlisting⟩ := h.grants
    obtain ⟨listing', hgrants', hlisting'⟩ := h'.grants
    rw [hgrants, hgrants']
    exact ⟨_, repeats_flatMap hlisting ⟨row, (List.mem_filter.mp hrow).1, rfl⟩,
      repeats_flatMap hlisting' ⟨row, (List.mem_filter.mp (hown ▸ hrow)).1, rfl⟩⟩
  · obtain ⟨listing, hvalues, hlisting⟩ := h.values
    obtain ⟨listing', hvalues', hlisting'⟩ := h'.values
    rw [hvalues, hvalues']
    exact ⟨_, repeats_flatMap hlisting ⟨row, (List.mem_filter.mp hrow).1, rfl⟩,
      repeats_flatMap hlisting' ⟨row, (List.mem_filter.mp (hown ▸ hrow)).1, rfl⟩⟩

end Caches.JobRows.ListedFrom

namespace ListStore

/-- A source that reads plain lists, and ignores for some requests which role or job they are
about. -/
def laxSource (ignores : {α : Type} → Request α → Bool) (limit : Duration) : Source ListStore :=
  ⟨.immediate fun request => answer (if ignores request then request.unscoped else request), limit⟩

variable {ignores : {α : Type} → Request α → Bool} {limit : Duration}

/-- A source that ignores nothing is the one that does what it is asked. -/
theorem laxSource_false (limit : Duration) : laxSource (fun _ => false) limit = source limit := rfl

theorem isListing_listed {ρ κ : Type} [DecidableEq κ] (store : ListStore) (owner : ρ → κ)
    (all : List ρ) (asked : κ) (ignored : Bool) :
    IsListing owner asked all (store.listed (if ignored then none else some asked) owner all) := by
  rw [listed]
  split
  · exact Or.inl rfl
  · cases ignored with
    | true =>
      left
      exact List.filter_eq_self.mpr fun _ _ => rfl
    | false =>
      right
      refine congrArg (List.filter · all) (funext fun row => ?_)
      simp [belongsTo]

theorem fetch_laxSource {α : Type} (loading : String) (request : Request α) (store : ListStore) :
    (laxSource ignores limit).fetch loading request store =
      answer (if ignores request then request.unscoped else request) store := rfl

/-- Whatever a source ignores, a role is found by its number. -/
theorem fetch_role (loading : String) (id : RoleId) (store : ListStore) :
    (laxSource ignores limit).fetch loading (.role id) store =
      (.ok (store.rows.roles.find? (·.id = id)), store) := by
  rw [fetch_laxSource]
  split <;> rfl

/-- Whatever a source ignores, it answers with a listing of what it was asked about. -/
theorem exists_fetch_listing {ρ κ : Type} [DecidableEq κ] (request : Request (List ρ))
    (owner : ρ → κ) (asked : κ) (all : Rows → List ρ)
    (hscoped : ∀ store, answer request store =
      (.ok (store.listed (some asked) owner (all store.rows)), store))
    (hunscoped : ∀ store, answer request.unscoped store =
      (.ok (store.listed none owner (all store.rows)), store)) (loading : String)
    (store : ListStore) :
    ∃ rows, (laxSource ignores limit).fetch loading request store = (.ok rows, store) ∧
      IsListing owner asked (all store.rows) rows := by
  refine ⟨_, ?_, store.isListing_listed owner (all store.rows) asked (ignores request)⟩
  rw [fetch_laxSource]
  cases ignores request with
  | true => exact hunscoped store
  | false => exact hscoped store

variable (ignores limit)

theorem exists_fetch_grants (loading : String) (id : RoleId) (store : ListStore) :
    ∃ rows, (laxSource ignores limit).fetch loading (.grants (some id)) store = (.ok rows, store) ∧
      IsListing Grant.role id store.rows.grants rows :=
  exists_fetch_listing _ Grant.role id Rows.grants (fun _ => rfl) (fun _ => rfl) loading store

theorem exists_fetch_values (loading : String) (id : RoleId) (store : ListStore) :
    ∃ rows, (laxSource ignores limit).fetch loading (.values (some id)) store = (.ok rows, store) ∧
      IsListing RoleValue.role id store.rows.values rows :=
  exists_fetch_listing _ RoleValue.role id Rows.values (fun _ => rfl) (fun _ => rfl) loading store

theorem exists_fetchGrants (id : RoleId) (store : ListStore) :
    ∃ rows, (laxSource ignores limit).fetchGrants id store =
        (.ok (store.rows.roles.find? (·.id = id), rows), store) ∧
      IsListing Grant.role id store.rows.grants rows := by
  obtain ⟨rows, hfetch, hlisting⟩ := exists_fetch_grants ignores limit "role grants" id store
  refine ⟨rows, Fetch.bind_eq_ok_iff.mpr ⟨_, _, fetch_role "role" id store, ?_⟩, hlisting⟩
  exact Fetch.bind_eq_ok_iff.mpr ⟨_, _, hfetch, rfl⟩

theorem exists_fetchValues (id : RoleId) (store : ListStore) :
    ∃ rows, (laxSource ignores limit).fetchValues id store =
        (.ok (store.rows.roles.find? (·.id = id), rows), store) ∧
      IsListing RoleValue.role id store.rows.values rows := by
  obtain ⟨rows, hfetch, hlisting⟩ :=
    exists_fetch_values ignores limit "role attribute values" id store
  refine ⟨rows, Fetch.bind_eq_ok_iff.mpr ⟨_, _, fetch_role "role" id store, ?_⟩, hlisting⟩
  exact Fetch.bind_eq_ok_iff.mpr ⟨_, _, hfetch, rfl⟩

theorem exists_fetchEach (roles : List Role) (store : ListStore) :
    ∃ grants values, (laxSource ignores limit).fetchEach roles store =
        (.ok (roles.flatMap grants, roles.flatMap values), store) ∧
      (∀ role : Role, IsListing Grant.role role.id store.rows.grants (grants role)) ∧
      ∀ role : Role, IsListing RoleValue.role role.id store.rows.values (values role) := by
  choose grants hgrants hlisting using fun role : Role =>
    exists_fetch_grants ignores limit "role grants" role.id store
  choose values hvalues hlisting' using fun role : Role =>
    exists_fetch_values ignores limit "role attribute values" role.id store
  refine ⟨grants, values, ?_, hlisting, hlisting'⟩
  induction roles with
  | nil => rfl
  | cons role roles ih =>
    refine Fetch.bind_eq_ok_iff.mpr ⟨_, _, hgrants role, ?_⟩
    refine Fetch.bind_eq_ok_iff.mpr ⟨_, _, hvalues role, ?_⟩
    exact Fetch.bind_eq_ok_iff.mpr ⟨_, _, ih, rfl⟩

theorem exists_fetchJob (job : String) (store : ListStore) :
    ∃ fetched, (laxSource ignores limit).fetchJob job store = (.ok fetched, store) ∧
      fetched.ListedFrom store.rows job := by
  obtain ⟨roles, hroles, hrolesListing⟩ : ∃ rows, (laxSource ignores limit).fetch "roles"
      (.roles (some job)) store = (.ok rows, store) ∧
        IsListing Role.job job store.rows.roles rows :=
    exists_fetch_listing _ Role.job job Rows.roles (fun _ => rfl) (fun _ => rfl) "roles" store
  obtain ⟨ceilings, hceilings, hceilingsListing⟩ : ∃ rows, (laxSource ignores limit).fetch
      "job attribute ceilings" (.ceilings (some job)) store = (.ok rows, store) ∧
      IsListing Ceiling.job job store.rows.ceilings rows :=
    exists_fetch_listing _ Ceiling.job job Rows.ceilings (fun _ => rfl) (fun _ => rfl) _ store
  obtain ⟨grants, values, heach, hgrants, hvalues⟩ := exists_fetchEach ignores limit roles store
  refine ⟨⟨roles, ceilings, roles.flatMap grants, roles.flatMap values⟩, ?_, hrolesListing,
    hceilingsListing, ⟨grants, rfl, hgrants⟩, ⟨values, rfl, hvalues⟩⟩
  refine Fetch.bind_eq_ok_iff.mpr ⟨_, _, hroles, Fetch.bind_eq_ok_iff.mpr ⟨_, _, hceilings, ?_⟩⟩
  exact Fetch.bind_eq_ok_iff.mpr ⟨_, _, heach, rfl⟩

end ListStore

/-! ## Two stores with the same rows -/

/-- Whether two runs of a reload succeed together and leave the same caches. -/
def SameOutcome {σ : Type} (run run' : Except Fault Report × Loaded σ) : Prop :=
  run.1.isOk = run'.1.isOk ∧ run.2.caches = run'.2.caches

/-- One fetch and one commit, by two ways of fetching: it is enough that what is fetched is
committed alike. -/
theorem Load.sameOutcome_fetch_commit {σ α : Type} {program program' : Load σ Report}
    {fetch fetch' : Fetch σ α} {change : α → Caches → Except Fault (Caches × Report)}
    (hprogram : program = ofFetch fetch >>= fun rows => commit (change rows))
    (hprogram' : program' = ofFetch fetch' >>= fun rows => commit (change rows)) {caches : Caches}
    {state state' left left' : σ} {rows rows' : α} (hfetch : fetch state = (.ok rows, left))
    (hfetch' : fetch' state' = (.ok rows', left'))
    (hsame : ∀ caches' report, change rows caches = .ok (caches', report) →
      ∃ report', change rows' caches = .ok (caches', report'))
    (hsame' : ∀ caches' report, change rows' caches = .ok (caches', report) →
      ∃ report', change rows caches = .ok (caches', report')) :
    SameOutcome (program ⟨caches, state⟩) (program' ⟨caches, state'⟩) := by
  rw [fetch_commit_of_ok hprogram hfetch, fetch_commit_of_ok hprogram' hfetch']
  cases hchange : change rows caches with
  | ok changed =>
    obtain ⟨report', hchange'⟩ := hsame changed.1 changed.2 hchange
    rw [commit_of_ok hchange, commit_of_ok hchange']
    exact ⟨rfl, rfl⟩
  | error fault =>
    cases hchange' : change rows' caches with
    | ok changed =>
      obtain ⟨report, hok⟩ := hsame' changed.1 changed.2 hchange'
      rw [hchange] at hok
      cases hok
    | error fault' =>
      rw [commit, commit, hchange, hchange']
      exact ⟨rfl, rfl⟩

/-- The roles for which the reload an event leads to may replace what is set for them. -/
def Event.Reaches (caches : Caches) (rows : Rows) : Event → RoleId → Prop
  | .roleGrants id, role => role = id
  | .roleValues id, role => role = id
  | .jobCeilings job, role =>
    role ∈ caches.roles.jobRoles job ∨ ∃ row ∈ rows.roles, row.job = job ∧ row.id = role

/-- The job whose ceilings the reload an event leads to may replace. -/
def Event.Limits : Event → String → Prop
  | .jobCeilings job, name => name = job
  | _, _ => False

/-- Listings for one role agree about that role. -/
theorem sameFor_of_isListing {ρ : Type} {owner : ρ → RoleId} {id : RoleId} {all rows rows' : List ρ}
    (h : IsListing owner id all rows) (h' : IsListing owner id all rows') :
    SameFor owner id rows rows' :=
  ⟨all.filter (owner · = id), h.filter_self ▸ .refl _, h'.filter_self ▸ .refl _⟩

namespace ListStore

variable {ignores ignores' : {α : Type} → Request α → Bool} {limit : Duration} {caches : Caches}

/-- Stores with the same rows are reloaded from alike, whatever each of them ignores. -/
theorem sameOutcome_applyEvent (store store' : ListStore) (hrows : store.rows = store'.rows)
    (event : Event) :
    SameOutcome ((laxSource ignores limit).applyEvent event ⟨caches, store⟩)
      ((laxSource ignores' limit).applyEvent event ⟨caches, store'⟩) := by
  cases event with
  | roleGrants id =>
    obtain ⟨grants, hfetch, hlisting⟩ := exists_fetchGrants ignores limit id store
    obtain ⟨grants', hfetch', hlisting'⟩ := exists_fetchGrants ignores' limit id store'
    rw [← hrows] at hfetch' hlisting'
    have hsame : SameFor Grant.role id grants grants' := sameFor_of_isListing hlisting hlisting'
    refine Load.sameOutcome_fetch_commit (Source.reloadGrants_eq _ id)
      (Source.reloadGrants_eq _ id) hfetch hfetch' (fun _ _ hchange => ?_)
      (fun _ _ hchange => ?_)
    · obtain ⟨report', h⟩ := Caches.reloadGrants_same hsame (Except.ok.inj hchange)
      exact ⟨report', congrArg Except.ok h⟩
    · obtain ⟨report', h⟩ := Caches.reloadGrants_same hsame.symm (Except.ok.inj hchange)
      exact ⟨report', congrArg Except.ok h⟩
  | roleValues id =>
    obtain ⟨values, hfetch, hlisting⟩ := exists_fetchValues ignores limit id store
    obtain ⟨values', hfetch', hlisting'⟩ := exists_fetchValues ignores' limit id store'
    rw [← hrows] at hfetch' hlisting'
    have hsame : SameFor RoleValue.role id values values' :=
      sameFor_of_isListing hlisting hlisting'
    exact Load.sameOutcome_fetch_commit (Source.reloadValues_eq _ id)
      (Source.reloadValues_eq _ id) hfetch hfetch'
      (fun _ _ hchange => Caches.reloadValues_same hsame hchange)
      (fun _ _ hchange => Caches.reloadValues_same hsame.symm hchange)
  | jobCeilings job =>
    obtain ⟨fetched, hfetch, hlisted⟩ := exists_fetchJob ignores limit job store
    obtain ⟨fetched', hfetch', hlisted'⟩ := exists_fetchJob ignores' limit job store'
    rw [← hrows] at hlisted'
    exact Load.sameOutcome_fetch_commit (Source.reloadJob_eq _ job) (Source.reloadJob_eq _ job)
      hfetch hfetch' (fun _ _ hchange => hlisted.reloadJob_same hlisted' hchange)
      (fun _ _ hchange => hlisted'.reloadJob_same hlisted hchange)

/-- The reload an event leads to leaves alone what is outside of its scope. -/
theorem keepsBeyond_applyEvent (store : ListStore) (event : Event) :
    caches.KeepsBeyond (event.Reaches caches store.rows) event.Limits
      ((laxSource ignores limit).applyEvent event ⟨caches, store⟩).2.caches := by
  cases event with
  | roleGrants id =>
    rcases (Load.fetch_commit_cases ((laxSource ignores limit).reloadGrants_eq id)
      ⟨caches, store⟩).2 with
      hkept | ⟨fetched, report, -, h⟩
    · exact hkept ▸ .refl caches
    · have hkeeps :=
        caches.keepsBeyond_reloadGrants (Event.roleGrants id).Limits id fetched.1 fetched.2
      rwa [congrArg Prod.fst (Except.ok.inj h)] at hkeeps
  | roleValues id =>
    rcases (Load.fetch_commit_cases ((laxSource ignores limit).reloadValues_eq id)
      ⟨caches, store⟩).2 with
      hkept | ⟨fetched, report, -, h⟩
    · exact hkept ▸ .refl caches
    · exact Caches.keepsBeyond_reloadValues h
  | jobCeilings job =>
    rcases (Load.fetch_commit_cases ((laxSource ignores limit).reloadJob_eq job)
      ⟨caches, store⟩).2 with
      hkept | ⟨fetched, report, hfetched, h⟩
    · exact hkept ▸ .refl caches
    · obtain ⟨fetched', hfetch, hlisted⟩ := exists_fetchJob ignores limit job store
      obtain rfl : fetched' = fetched := by
        rw [hfetch] at hfetched
        exact Except.ok.inj hfetched
      refine (Caches.keepsBeyond_reloadJob h).mono (fun id hmem => ?_) fun _ hjob => hjob
      refine (List.mem_append.mp hmem).imp_right fun hown => ?_
      rw [hlisted.own_eq, List.mem_map] at hown
      obtain ⟨row, hrow, hid⟩ := hown
      rw [List.mem_filter, decide_eq_true_eq] at hrow
      exact ⟨row, hrow.1, hrow.2, hid⟩

/-- **Reloads keep to their scope.**  Two stores have the same rows, and one of them ignores, always
or for some requests, which role or job a listing is for.  The reload an event leads to succeeds
with both or with neither, and leaves the same caches.  In these the catalog is as before, and so is
everything that is set for roles the event does not reach, and the ceilings of jobs it does not
limit. -/
theorem applyEvent_within_scope (limit : Duration) (caches : Caches) (rows : Rows) (next : UInt64)
    (unfiltered : Bool) (ignores : {α : Type} → Request α → Bool) (event : Event) :
    let strict := (source limit).applyEvent event ⟨caches, ⟨rows, false, next⟩⟩
    let lax := (laxSource ignores limit).applyEvent event ⟨caches, ⟨rows, unfiltered, next⟩⟩
    SameOutcome strict lax ∧
      caches.KeepsBeyond (event.Reaches caches rows) event.Limits strict.2.caches := by
  rw [← laxSource_false]
  exact ⟨sameOutcome_applyEvent ⟨rows, false, next⟩ ⟨rows, unfiltered, next⟩ rfl event,
    keepsBeyond_applyEvent ⟨rows, false, next⟩ event⟩

end ListStore

end GradedAccess
