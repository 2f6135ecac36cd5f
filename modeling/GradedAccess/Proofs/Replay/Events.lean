import GradedAccess.Proofs.Reload.Job
import GradedAccess.Proofs.Replay.Roles
import GradedAccess.Proofs.Store.Plain

/-!
# Events that come again

A bus may deliver an event more than once.  As long as the store stays as it is, an event that is
applied again leaves the caches as the first time left them (`applyEvent_again`).  What it reports
is what it reported, except that nothing is gone any more; and if it failed, it fails again, with
the same fault.

Nothing is assumed of the caches, and of the store only that reading leaves it as it is.  Rows may
be listed twice, may contradict each other or refer to nothing, and roles may be gone.  What makes
it work is that a reload looks at nothing that it changes, except for the roles a job had before:
the rows of these are emptied the first time, and then there is nothing left to be emptied.
-/

namespace GradedAccess

/-- The report of a reload that is made again: what is brought, skipped and clamped is the same, and
nothing is gone. -/
def Report.again (report : Report) : Report := { report with removed := 0 }

namespace Caches

variable {caches after caches' : Caches} {id : RoleId} {named named' : List RoleId}
variable {report : Report}

/-! ## Replacing rows -/

theorem commitGrants_again {screened : Screened (RoleId × PermissionId × Bool)}
    (h : caches.commitGrants named screened = (after, report))
    (hheld : caches'.grants = after.grants) (hnamed : ∀ role ∈ named', role ∈ named) :
    caches'.commitGrants named' screened = (caches', report.again) := by
  cases h
  have hreplaced : caches'.grants.replaceRows named' screened.entries =
      (caches'.grants, (caches.grants.replaceRows named screened.entries).2.again) := by
    rw [hheld]
    exact PairTable.replaceRows_again caches.grants screened.entries hnamed
  rw [commitGrants, hreplaced]
  rfl

theorem commitValues_again {screened : Screened (RoleId × AttributeId × AttributeValue)}
    (h : caches.commitValues named screened = (after, report))
    (hheld : caches'.values = after.values) (hnamed : ∀ role ∈ named', role ∈ named) :
    caches'.commitValues named' screened = (caches', report.again) := by
  cases h
  have hreplaced : caches'.values.replaceRows named' screened.entries =
      (caches'.values, (caches.values.replaceRows named screened.entries).2.again) := by
    rw [hheld]
    exact PairTable.replaceRows_again caches.values screened.entries hnamed
  rw [commitValues, hreplaced]
  rfl

/-! ## Committing again -/

/-- Dropping everything for a role again changes nothing. -/
theorem forget_again (caches : Caches) (id : RoleId) :
    (caches.forget id).1.forget id = ((caches.forget id).1, (caches.forget id).2.again) := by
  have hroles : (caches.forget id).1.roles = caches.roles.remove id := rfl
  have hgrants : (caches.forget id).1.grants = (caches.grants.replaceRow id []).1 := rfl
  have hvalues : (caches.forget id).1.values = (caches.values.replaceRow id []).1 := rfl
  have hgone : ((caches.forget id).1.roles.role id).isSome = false := by
    rw [hroles, RoleIndex.role_remove, if_pos rfl, Option.isSome_none]
  generalize hforgotten : caches.forget id = forgotten at *
  rw [forget, hroles, hgrants, hvalues, PairTable.replaceRow_nil_again,
    PairTable.replaceRow_nil_again, RoleIndex.remove_remove, ← hroles, ← hgrants, ← hvalues, hgone]
  subst hforgotten
  rfl

/-- A role that has been put into the index is in it. -/
theorem upsert_roles_again {row : Role} (hroles : caches'.roles = caches.roles.upsert row) :
    { caches' with roles := caches'.roles.upsert row } = caches' := by
  have hupsert : caches'.roles.upsert row = caches'.roles := by
    rw [hroles, RoleIndex.upsert_upsert]
  rw [hupsert]

theorem reloadGrants_again {role : Option Role} {rows : List Grant}
    (h : caches.reloadGrants id role rows = (caches', report)) :
    caches'.reloadGrants id role rows = (caches', report.again) := by
  cases role with
  | none =>
    cases h
    exact caches.forget_again id
  | some row =>
    have hroles : caches'.roles = caches.roles.upsert row := by cases h; rfl
    have hknown : caches'.knownFor id row = caches.knownFor id row := by cases h; rfl
    rw [reloadGrants, upsert_roles_again hroles, hknown]
    exact commitGrants_again h rfl fun _ hmem => hmem

theorem reloadValues_again {role : Option Role} {rows : List RoleValue}
    (h : caches.reloadValues id role rows = .ok (caches', report)) :
    caches'.reloadValues id role rows = .ok (caches', report.again) := by
  cases role with
  | none =>
    cases h
    exact congrArg Except.ok (caches.forget_again id)
  | some row =>
    obtain ⟨screened, hscreened, hcommit⟩ := bind_eq_ok_iff.mp h
    have hcommit := Except.ok.inj hcommit
    have hroles : caches'.roles = caches.roles.upsert row := by cases hcommit; rfl
    -- the values are screened against the catalog and the ceilings, which a role's reload leaves
    have hscreened' : (caches'.knownFor id row).screenValues caches'.ceiling rows =
        .ok screened := by
      cases hcommit
      exact hscreened
    refine bind_eq_ok_iff.mpr ⟨screened, hscreened', ?_⟩
    rw [upsert_roles_again hroles]
    exact congrArg Except.ok (commitValues_again hcommit rfl fun _ hmem => hmem)

/-- The roles in the slots of a job that has been replaced are among those it was replaced by. -/
theorem mem_of_mem_jobRoles_replaceJob {index : RoleIndex} {job : String} {roles : List Role}
    (h : id ∈ (index.replaceJob job roles).1.jobRoles job) : id ∈ roles.map (·.id) := by
  obtain ⟨grade, hslot⟩ := RoleIndex.mem_jobRoles_iff.mp h
  obtain ⟨row, hrow, -, hid⟩ := (RoleIndex.roleId_replaceJob_self.mp hslot).1
  exact List.mem_map.mpr ⟨row, List.mem_of_mem_filter hrow, hid⟩

/-- Reloading a job again changes nothing.  The roles the job had before are not named again, and
have no rows any more. -/
theorem reloadJob_again {job : String} {rows : JobRows}
    (h : caches.reloadJob job rows = .ok (caches', report)) :
    caches'.reloadJob job rows = .ok (caches', report.again) := by
  obtain ⟨ceilings, values, hceilings, hvalues, hcommit⟩ := reloadJob_eq_ok_iff.mp h
  have hknown : caches'.knownAmong (rows.own job) = caches.knownAmong (rows.own job) := by
    cases hcommit; rfl
  have haffected : ∀ id ∈ caches'.affected job rows, id ∈ caches.affected job rows := by
    intro id hmem
    refine List.mem_append_right _ ?_
    rcases List.mem_append.mp hmem with hmem | hmem
    · cases hcommit
      exact mem_of_mem_jobRoles_replaceJob hmem
    · exact hmem
  have hindex : caches'.roles.replaceJob job (rows.own job) =
      (caches'.roles, (caches.roles.replaceJob job (rows.own job)).2.again) := by
    rw [← congrArg (fun result => result.1.roles) hcommit]
    exact RoleIndex.replaceJob_again caches.roles job (rows.own job)
  have hgranted := PairTable.replaceRows_again caches.grants
    ((caches.knownAmong (rows.own job)).screenGrants rows.grants).entries haffected
  have hgiven := PairTable.replaceRows_again caches.values values.entries haffected
  have hlimited := PairTable.replaceRows_again caches.ceilings
    (ceilings.toCeilings.toList.map fun entry => (entry.1.1, entry.1.2, entry.2))
    fun job' (hmem : job' ∈ [job]) => hmem
  rw [show (caches.grants.replaceRows _ _).1 = caches'.grants from
    congrArg (fun result => result.1.grants) hcommit] at hgranted
  rw [show (caches.values.replaceRows _ _).1 = caches'.values from
    congrArg (fun result => result.1.values) hcommit] at hgiven
  rw [show (caches.ceilings.replaceRows _ _).1 = caches'.ceilings from
    congrArg (fun result => result.1.ceilings) hcommit] at hlimited
  refine reloadJob_eq_ok_iff.mpr ⟨ceilings, values, by rwa [hknown], by rwa [hknown], ?_⟩
  have hreport : report = (caches.commitJob job rows ceilings values).2 :=
    (congrArg Prod.snd hcommit).symm
  rw [commitJob, hknown, hindex, hgranted, hgiven, hlimited, hreport]
  rfl

end Caches

/-! ## Applying again -/

/-- One fetch and one commit, made again.  If the fetch leaves the store as it is, it brings the
same rows; and if the commit of the same rows changes nothing, all that was left is left. -/
theorem Load.fetch_commit_again {σ α : Type} {program : Load σ Report} {fetch : Fetch σ α}
    {change : α → Caches → Except Fault (Caches × Report)} {caches : Caches} {state : σ}
    (hprogram : program = ofFetch fetch >>= fun rows => commit (change rows))
    (hkept : (fetch state).2 = state)
    (hagain : ∀ rows caches' report, change rows caches = .ok (caches', report) →
      change rows caches' = .ok (caches', report.again)) {result : Except Fault Report}
    {loaded : Loaded σ}
    (hfirst : program ⟨caches, state⟩ = (result, loaded)) :
    program loaded = (result.map Report.again, loaded) := by
  rcases hfetch : fetch state with ⟨fault | rows, left⟩
  · obtain rfl : left = state := by rw [← hkept, hfetch]
    have hfetched : ofFetch fetch ⟨caches, left⟩ = (.error fault, ⟨caches, left⟩) := by
      rw [ofFetch, hfetch]
    rw [hprogram, Fetch.bind_of_error hfetched] at hfirst
    cases hfirst
    rw [hprogram]
    exact Fetch.bind_of_error hfetched
  · obtain rfl : left = state := by rw [← hkept, hfetch]
    rw [fetch_commit_of_ok hprogram hfetch] at hfirst
    cases hchange : change rows caches with
    | error fault =>
      have hcommit : commit (change rows) ⟨caches, left⟩ = (.error fault, ⟨caches, left⟩) := by
        rw [commit, hchange]
      rw [hcommit] at hfirst
      cases hfirst
      exact (fetch_commit_of_ok hprogram hfetch).trans hcommit
    | ok changed =>
      rw [commit_of_ok hchange] at hfirst
      cases hfirst
      exact (fetch_commit_of_ok hprogram hfetch).trans
        (commit_of_ok (hagain rows _ _ hchange))

namespace Source

variable {σ : Type} {source : Source σ} {state : σ}

/-- **An event that comes again changes nothing.**  While the store stays as it is, applying an
event a second time leaves all caches as the first time left them.  It reports the same, except that
nothing is gone any more, and if it failed at first then it fails again. -/
theorem applyEvent_again (hsteady : source.Steady state) (caches : Caches) (event : Event)
    {result : Except Fault Report} {loaded : Loaded σ}
    (hfirst : source.applyEvent event ⟨caches, state⟩ = (result, loaded)) :
    source.applyEvent event loaded =
      (result.map fun report => { report with removed := 0 }, loaded) := by
  cases event with
  | roleGrants id =>
    refine Load.fetch_commit_again (source.reloadGrants_eq id)
      (hsteady.respects.fetchGrants id state rfl) ?_ hfirst
    intro rows caches' report hchange
    exact congrArg Except.ok (Caches.reloadGrants_again (Except.ok.inj hchange))
  | roleValues id =>
    refine Load.fetch_commit_again (source.reloadValues_eq id)
      (hsteady.respects.fetchValues id state rfl) ?_ hfirst
    intro rows caches' report hchange
    exact Caches.reloadValues_again hchange
  | jobCeilings job =>
    refine Load.fetch_commit_again (source.reloadJob_eq job)
      (hsteady.respects.fetchJob job state rfl) ?_ hfirst
    intro rows caches' report hchange
    exact Caches.reloadJob_again hchange

end Source

namespace ListStore

/-- Two roles of the police, both granted the permission of the store. -/
def squad : ListStore where
  rows := {
    permissions := [⟨⟨1⟩, "citizens", "List", "citizens-list", 0⟩]
    attributes := [⟨⟨2⟩, ⟨1⟩, "fields", .stringList, .strings ⟨["name", "phone"]⟩⟩]
    roles := [⟨⟨3⟩, "police", 5⟩, ⟨⟨4⟩, "police", 7⟩]
    grants := [⟨⟨3⟩, ⟨1⟩, true⟩, ⟨⟨4⟩, ⟨1⟩, true⟩]
    values := [⟨⟨4⟩, ⟨2⟩, some (.strings ⟨["phone", "name"]⟩)⟩] }

/-- The same store later, in disorder: a role is gone but not its grant, two roles claim one slot,
a grant is listed twice and another one refers to nothing, and listings ignore what they were asked
about. -/
def regrouped : ListStore where
  rows := { squad.rows with
    roles := [⟨⟨5⟩, "police", 5⟩, ⟨⟨3⟩, "police", 5⟩]
    grants := [⟨⟨3⟩, ⟨1⟩, true⟩, ⟨⟨3⟩, ⟨9⟩, true⟩, ⟨⟨3⟩, ⟨1⟩, false⟩, ⟨⟨4⟩, ⟨1⟩, true⟩]
    values := [⟨⟨3⟩, ⟨2⟩, some (.strings ⟨["phone", "name"]⟩)⟩]
    ceilings := [⟨"police", ⟨2⟩, some (.strings ⟨["name", "email"]⟩)⟩] }
  unfiltered := true

/-- The first time the disorder drops what is gone; the second time it changes nothing. -/
theorem regrouped_again :
    let squadCaches := ((source 0).loadAll ⟨{}, squad⟩).2.caches
    let loaded := ((source 0).applyEvent (.jobCeilings "police") ⟨squadCaches, regrouped⟩).2
    (source 0).Steady regrouped ∧ loaded.caches ≠ squadCaches ∧
      (source 0).applyEvent (.jobCeilings "police") ⟨squadCaches, regrouped⟩ =
        (.ok ⟨8, 3, 4, 2⟩, loaded) ∧
      (source 0).applyEvent (.jobCeilings "police") loaded = (.ok ⟨8, 0, 4, 2⟩, loaded) := by
  intro squadCaches loaded
  have hsteady := steady_source 0 regrouped
  have hchanged : loaded.caches ≠ squadCaches := by decide +kernel
  have hresult : ((source 0).applyEvent (.jobCeilings "police") ⟨squadCaches, regrouped⟩).1 =
      .ok ⟨8, 3, 4, 2⟩ := by decide +kernel
  have hfirst := Fetch.run_eq _ _ hresult
  exact ⟨hsteady, hchanged, hfirst,
    Source.applyEvent_again hsteady squadCaches (.jobCeilings "police") hfirst⟩

end ListStore

end GradedAccess
