import GradedAccess.Proofs.Reload.Update
import GradedAccess.Store.Lists

/-!
# What a failed reload leaves behind

A reload fetches first and works on the caches afterwards, and it works on them in their place, so
that a fault leaves whatever has been written by then.  But what can fail comes before anything is
written (`Update.load_eq` and its like).  So a reload that is *one* fetch and *one* update leaves
the caches as they were whenever it fails, at whatever point that happens and whatever the store
does.  This covers the reload of everything, the reload of a job, and either half of the reload of a
role.

The reload of a role is two such reloads in a row, and the second half can fail when the first has
already been written.  `caches_of_reload_error` says what is left then: exactly what the first
half left.  The caches are as they were precisely when the first half failed too, or had nothing
to change.

Nothing is assumed of the store.  It may answer anything, report a fault or exceed the limit at
every single request.
-/

namespace GradedAccess

variable {σ α β : Type}

namespace Update

/-- A fault leaves the caches as they were. -/
def KeepsOnFault (update : Update Report) : Prop :=
  ∀ caches fault, (update caches).1 = .error fault → (update caches).2 = caches

theorem keepsOnFault_atOnce (change : Caches → Except Fault (Caches × Report)) :
    KeepsOnFault (atOnce change) := by
  intro caches fault h
  rw [atOnce] at h ⊢
  cases hchange : change caches with
  | error fault' => rfl
  | ok changed =>
    rw [hchange] at h
    cases h

end Update

/-- One fetch and one update: if a fault of the update leaves the caches as they were, so does any
fault of the two. -/
theorem Load.caches_of_fetch_update_error {fetch : Fetch σ α} {update : α → Update Report}
    (hupdate : ∀ rows, (update rows).KeepsOnFault) {state : Loaded σ} {fault : Fault}
    (h : ((Load.ofFetch fetch >>= fun rows => Load.ofUpdate (update rows)) state).1 =
      .error fault) :
    ((Load.ofFetch fetch >>= fun rows => Load.ofUpdate (update rows)) state).2.caches =
      state.caches := by
  have hfetch := Load.caches_ofFetch fetch state
  rcases hf : Load.ofFetch fetch state with ⟨fault' | rows, fetched⟩
  · rw [Fetch.bind_of_error hf]
    rwa [hf] at hfetch
  · rw [Fetch.bind_of_ok hf] at h ⊢
    rw [hf] at hfetch
    exact (hupdate rows fetched.caches fault h).trans hfetch

namespace Source

variable (source : Source σ)

/-- A full load that fails leaves the caches as they were. -/
theorem caches_loadAll_of_error {state : Loaded σ} {fault : Fault}
    (h : (source.loadAll state).1 = .error fault) :
    (source.loadAll state).2.caches = state.caches :=
  Load.caches_of_fetch_update_error (fun rows => by
    rw [Update.load_eq]
    exact Update.keepsOnFault_atOnce _) h

/-- A failed reload of the grants of a role leaves the caches as they were. -/
theorem caches_reloadGrants_of_error {id : RoleId} {state : Loaded σ} {fault : Fault}
    (h : (source.reloadGrants id state).1 = .error fault) :
    (source.reloadGrants id state).2.caches = state.caches :=
  Load.caches_of_fetch_update_error (fun rows => by
    rw [Update.reloadGrants_eq]
    exact Update.keepsOnFault_atOnce _) h

/-- A failed reload of the values of a role leaves the caches as they were. -/
theorem caches_reloadValues_of_error {id : RoleId} {state : Loaded σ} {fault : Fault}
    (h : (source.reloadValues id state).1 = .error fault) :
    (source.reloadValues id state).2.caches = state.caches :=
  Load.caches_of_fetch_update_error (fun rows => by
    rw [Update.reloadValues_eq]
    exact Update.keepsOnFault_atOnce _) h

/-- A failed reload of a job leaves the caches as they were. -/
theorem caches_reloadJob_of_error {job : String} {state : Loaded σ} {fault : Fault}
    (h : (source.reloadJob job state).1 = .error fault) :
    (source.reloadJob job state).2.caches = state.caches :=
  Load.caches_of_fetch_update_error (fun rows => by
    rw [Update.reloadJob_eq]
    exact Update.keepsOnFault_atOnce _) h

/-- A failed reload of a role leaves what its first half has left. -/
theorem caches_reloadRole_of_error {id : RoleId} {state : Loaded σ} {fault : Fault}
    (h : (source.reloadRole id state).1 = .error fault) :
    (source.reloadRole id state).2.caches = (source.reloadGrants id state).2.caches := by
  rw [reloadRole] at h ⊢
  rcases hfirst : source.reloadGrants id state with ⟨fault' | grants, between⟩
  · rw [Fetch.bind_of_error hfirst]
  · rw [Fetch.bind_of_ok hfirst] at h ⊢
    -- the first half is written, so what matters is whether the second one fails
    have hvalues : (source.reloadValues id between).1 = .error fault →
        (source.reloadValues id between).2.caches = between.caches :=
      source.caches_reloadValues_of_error
    rcases hsecond : source.reloadValues id between with ⟨fault' | values, after⟩
    · rw [Fetch.bind_of_error hsecond] at h ⊢
      cases h
      rw [hsecond] at hvalues
      exact hvalues rfl
    · rw [Fetch.bind_of_ok hsecond] at h
      cases h

/-- **What a failed reload leaves.**  A failed reload leaves the caches as they were, with one
exception: of a role's reload the first half may have been written before the second half
failed, and then the caches are the ones the first half left. -/
theorem caches_of_reload_error {scope : Scope} {state : Loaded σ} {fault : Fault}
    (h : (source.reload scope state).1 = .error fault) :
    ((source.reload scope state).2.caches = state.caches ↔
      ∀ id report loaded, scope = .role id → source.reloadGrants id state = (.ok report, loaded) →
        loaded.caches = state.caches) ∧
    ∀ id, scope = .role id →
      (source.reload scope state).2.caches = (source.reloadGrants id state).2.caches := by
  cases scope with
  | all =>
    refine ⟨⟨fun _ id _ _ he => ?_, fun _ => source.caches_loadAll_of_error h⟩, fun id he => ?_⟩
    · cases he
    · cases he
  | job job =>
    refine ⟨⟨fun _ id _ _ he => ?_, fun _ => source.caches_reloadJob_of_error h⟩, fun id he => ?_⟩
    · cases he
    · cases he
  | role id =>
    have hleft : (source.reload (.role id) state).2.caches =
        (source.reloadGrants id state).2.caches := source.caches_reloadRole_of_error h
    refine ⟨⟨?_, ?_⟩, ?_⟩
    · rintro hkept id' report loaded ⟨⟩ hgrants
      rw [hleft, hgrants] at hkept
      exact hkept
    · intro hnothing
      rw [hleft]
      cases hgrants : source.reloadGrants id state with
      | mk first loaded =>
        cases first with
        | ok report => exact hnothing id report loaded rfl hgrants
        | error fault' =>
          have hfailed : (source.reloadGrants id state).1 = .error fault' := by rw [hgrants]
          have hkept := source.caches_reloadGrants_of_error hfailed
          rwa [hgrants] at hkept
    · rintro id' ⟨⟩
      exact hleft

end Source

/-- A store that has one role without grants, and never answers about anything else. -/
def Store.roleOnly (role : Role) : Store Unit where
  ask request _ state :=
    match request with
    | .role _ => (some (.ok (some role)), state)
    | .grants _ => (some (.ok []), state)
    | _ => (none, state)

/-- With a store that never answers about values, a role's reload fails, and yet the role is cached
afterwards.  A job's reload fails when a ceiling is of another kind than the cached attribute, and
then nothing of the job is cached. -/
theorem failed_role_reload_caches_role :
    let role : Role := ⟨⟨1⟩, "police", 5⟩
    let source : Source Unit := ⟨Store.roleOnly role, 0⟩
    let reloaded := source.reload (.role ⟨1⟩) ⟨{}, ()⟩
    let caches : Caches := { catalog :=
      (Catalog.replaceAttributes {} [⟨⟨3⟩, ⟨2⟩, "fields", .stringList, .strings {}⟩]).1 }
    let lists : ListStore := { rows := {
      roles := [role], ceilings := [⟨"police", ⟨3⟩, some (.jobs ⟨["police"]⟩)⟩] } }
    let refused := Source.reload ⟨.immediate ListStore.answer, 0⟩ (.job "police") ⟨caches, lists⟩
    (reloaded.1 = .error (.timedOut "role attribute values" 0) ∧
      reloaded.2.caches.roles.role ⟨1⟩ = some role ∧ reloaded.2.caches ≠ ({} : Caches)) ∧
    refused.1 = .error (.kindMismatch .jobList .stringList) ∧ refused.2.caches = caches := by
  intro role source reloaded caches lists refused
  have hfailed : reloaded.1 = .error (.timedOut "role attribute values" 0) := rfl
  have hleft : reloaded.2.caches = (source.reloadGrants ⟨1⟩ ⟨{}, ()⟩).2.caches :=
    (source.caches_of_reload_error hfailed).2 ⟨1⟩ rfl
  have hrole : reloaded.2.caches.roles.role ⟨1⟩ = some role := by
    rw [hleft]
    exact RoleIndex.role_upsert {} role ⟨1⟩
  have hrefused : refused.1 = .error (.kindMismatch .jobList .stringList) := rfl
  have hnorole : ∀ id report loaded, Scope.job "police" = .role id →
      Source.reloadGrants ⟨.immediate ListStore.answer, 0⟩ id ⟨caches, lists⟩ =
        (.ok report, loaded) → loaded.caches = caches := nofun
  refine ⟨⟨hfailed, hrole, fun hkept => ?_⟩, hrefused,
    (Source.caches_of_reload_error _ hrefused).1.mpr hnorole⟩
  rw [hkept] at hrole
  cases hrole

end GradedAccess
