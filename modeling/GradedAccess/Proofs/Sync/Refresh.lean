import GradedAccess.Proofs.Store.Alone
import GradedAccess.Proofs.Sync.Commit

/-!
# Applying an event to a store that others change

What an event fetches from a shared store, and what its reload then makes of the caches.  Others
may operate on the store after every request.  `Shared.Heads` says where that ends: which store is
left when all of them are done, and which parts they touch on the way.  Every request brings the
store closer to that, so the same is true after it.

If the caches are in sync when the event comes, then the event is applied without a fault, and the
caches are in sync again with the store that is left in the end.  What is due then is what others
have touched meanwhile, and what was due before and has not been announced
(`Caches.InSync.applyEvent`).
-/

namespace GradedAccess

variable {due touched : Part → Prop} {shared : Shared} {final : MemoryStore}

/-! ## Where a shared store heads -/

/-- Whether a shared store is on its way to another store, and others touch nothing but some parts
until then. -/
structure Shared.Heads (touched : Part → Prop) (shared : Shared) (final : MemoryStore) :
    Prop where
  sound : shared.store.Sound
  kinds : shared.store.WellKinded
  settles : shared.settled = final
  room : final.next ≤ UInt64.size
  fits : ∀ op ∈ shared.pending.flatten, op.Fits shared.store
  touches : ∀ part, Touched shared.store shared.pending.flatten part → touched part

namespace Shared

/-- On its way a shared store drifts in the parts that others touch. -/
theorem Heads.drift (h : shared.Heads touched final) : Drift touched shared.store final := by
  obtain rfl := h.settles
  exact (drift_afterAll h.sound h.room h.fits).mono h.touches

/-- After a request that only reads, a shared store still goes where it was going. -/
theorem Heads.tick (h : shared.Heads touched final) : shared.tick.Heads touched final := by
  obtain ⟨store, pending⟩ := shared
  cases pending with
  | nil => exact h
  | cons ops pending =>
    have hops : ∀ op ∈ ops, op.Fits store := fun op hmem =>
      h.fits op (List.mem_append_left _ hmem)
    have hroom : (store.afterAll ops).next ≤ UInt64.size := by
      have hsettles := h.settles
      rw [settled, List.flatten_cons, MemoryStore.afterAll_append] at hsettles
      have hlater := MemoryStore.next_le_afterAll (store.afterAll ops) pending.flatten
      rw [hsettles] at hlater
      exact Nat.le_trans hlater h.room
    have hdrift := drift_afterAll h.sound hroom hops
    exact {
      sound := hdrift.sound'
      kinds := hdrift.kinds h.kinds
      settles := (settled_tick _).trans h.settles
      room := h.room
      fits := fun op hmem => (h.fits op (List.mem_append_right _ hmem)).congr hdrift.attributes
      touches := fun part hpart =>
        h.touches part ((touched_append store ops pending.flatten part).mpr (Or.inr hpart)) }

/-! ## What is fetched -/

variable (limit : Duration)

/-- A role is fetched first, and then its grants. -/
theorem fetchGrants_source (id : RoleId) (shared : Shared) :
    (source limit).fetchGrants id shared =
      (.ok (shared.store.roles[id]?, shared.tick.store.listGrants (some id)), shared.tick.tick) :=
  rfl

/-- A role is fetched first, and then its values. -/
theorem fetchValues_source (id : RoleId) (shared : Shared) :
    (source limit).fetchValues id shared =
      (.ok (shared.store.roles[id]?, shared.tick.store.listValues (some id)), shared.tick.tick) :=
  rfl

/-- Rows that belong to some roles have none for another role. -/
theorem filter_eq_nil_of_owner {ρ : Type} {rows : List ρ} {owner : ρ → RoleId} {roles : List Role}
    {id : RoleId} (howner : ∀ row ∈ rows, ∃ role ∈ roles, role.id = owner row)
    (hnot : ∀ role ∈ roles, id ≠ role.id) : rows.filter (owner · = id) = [] := by
  refine List.filter_eq_nil_iff.mpr fun row hmem hid => ?_
  obtain ⟨role, hrole, hrow⟩ := howner row hmem
  exact hnot role hrole ((of_decide_eq_true hid).symm.trans hrow.symm)

/-- The grants and values of roles are fetched for each role at some time on the way. -/
theorem fetchEach_source {roles : List Role} (hdistinct : roles.Pairwise fun a b => a.id ≠ b.id)
    (h : shared.Heads touched final) :
    ∃ grants values after, (source limit).fetchEach roles shared = (.ok (grants, values), after) ∧
      Caches.EachFrom touched final roles grants values := by
  induction roles generalizing shared with
  | nil => exact ⟨[], [], shared, rfl, nofun, nofun, nofun, nofun⟩
  | cons role roles ih =>
    rw [List.pairwise_cons] at hdistinct
    obtain ⟨grants, values, after, hrun, hrest⟩ := ih hdistinct.2 h.tick.tick
    have hfetched : (source limit).fetchEach (role :: roles) shared =
        (.ok (shared.store.listGrants (some role.id) ++ grants,
          shared.tick.store.listValues (some role.id) ++ values), after) := by
      refine Fetch.bind_eq_ok_iff.mpr ⟨_, _, rfl, Fetch.bind_eq_ok_iff.mpr ⟨_, _, rfl, ?_⟩⟩
      exact Fetch.bind_eq_ok_iff.mpr ⟨_, _, hrun, rfl⟩
    refine ⟨_, _, after, hfetched, ?_⟩
    have hown : belongsTo (some role.id) role.id := belongsTo_some_iff.mpr rfl
    have hother : ∀ other ∈ roles, ¬belongsTo (some role.id) other.id := fun other hmem heq =>
      hdistinct.1 other hmem (belongsTo_some_iff.mp heq).symm
    refine ⟨fun other hmem => ?_, fun other hmem => ?_, fun row hmem => ?_, fun row hmem => ?_⟩
    · rw [List.filter_append, MemoryStore.filter_listGrants]
      rcases List.mem_cons.mp hmem with rfl | hmem
      · rw [if_pos hown, filter_eq_nil_of_owner hrest.grants_of hdistinct.1, List.append_nil]
        exact ⟨shared.store, h.drift, rfl⟩
      · rw [if_neg (hother other hmem), List.nil_append]
        exact hrest.grants other hmem
    · rw [List.filter_append, MemoryStore.filter_listValues]
      rcases List.mem_cons.mp hmem with rfl | hmem
      · rw [if_pos hown, filter_eq_nil_of_owner hrest.values_of hdistinct.1, List.append_nil]
        exact ⟨shared.tick.store, h.tick.drift, h.tick.kinds, rfl⟩
      · rw [if_neg (hother other hmem), List.nil_append]
        exact hrest.values other hmem
    · rcases List.mem_append.mp hmem with hmem | hmem
      · exact ⟨role, List.mem_cons_self, (MemoryStore.role_of_mem_listGrants hmem).symm⟩
      · obtain ⟨owner, howner, hid⟩ := hrest.grants_of row hmem
        exact ⟨owner, List.mem_cons_of_mem _ howner, hid⟩
    · rcases List.mem_append.mp hmem with hmem | hmem
      · have hrole := belongsTo_some_iff.mp (MemoryStore.mem_listValues.mp hmem).2
        exact ⟨role, List.mem_cons_self, hrole.symm⟩
      · obtain ⟨owner, howner, hid⟩ := hrest.values_of row hmem
        exact ⟨owner, List.mem_cons_of_mem _ howner, hid⟩

/-- The rows of a job are fetched on the way. -/
theorem fetchJob_source (h : shared.Heads touched final) (job : String) :
    ∃ rows after, (source limit).fetchJob job shared = (.ok rows, after) ∧
      rows.From touched shared.store final job := by
  have hdistinct : (shared.store.listRoles (some job)).Pairwise fun a b => a.id ≠ b.id :=
    h.sound.distinct_roles.filter _
  obtain ⟨grants, values, after, hrun, heach⟩ := fetchEach_source limit hdistinct h.tick.tick
  refine ⟨⟨shared.store.listRoles (some job), shared.tick.store.listCeilings (some job), grants,
    values⟩, after, ?_, ?_⟩
  · refine Fetch.bind_eq_ok_iff.mpr ⟨_, _, rfl, Fetch.bind_eq_ok_iff.mpr ⟨_, _, rfl, ?_⟩⟩
    exact Fetch.bind_eq_ok_iff.mpr ⟨_, _, hrun, rfl⟩
  · exact { heach with
      roles := rfl
      ceilings := ⟨shared.tick.store, h.tick.drift, h.tick.kinds, rfl⟩ }

end Shared

/-! ## What an event does -/

/-- Applying an event leaves the store to others. -/
theorem Shared.settled_applyEvent (limit : Duration) (event : Event) (loaded : Loaded Shared) :
    ((source limit).applyEvent event loaded).2.store.settled = loaded.store.settled :=
  (respects_settled limit).carries.applyEvent event loaded

/-- **An event that is applied to caches in sync keeps them in sync.**  It does not fail.  What it
announces is not due any more, unless others have touched it meanwhile. -/
theorem Caches.InSync.applyEvent {caches : Caches} (h : caches.InSync due shared.store)
    (hheads : shared.Heads touched final) (limit : Duration) (event : Event) :
    ∃ report after,
      (Shared.source limit).applyEvent event ⟨caches, shared⟩ = (.ok report, after) ∧
      after.caches.InSync (DueAfter due touched event.Refreshes) final := by
  cases event with
  | roleGrants role =>
    have hrun : (Shared.source limit).reloadGrants role ⟨caches, shared⟩ = _ :=
      Load.fetch_commit_of_ok ((Shared.source limit).reloadGrants_eq role)
        (Shared.fetchGrants_source limit role shared)
    exact ⟨_, _, hrun, h.reloadGrants hheads.drift hheads.tick.drift role⟩
  | roleValues role =>
    obtain ⟨caches', report, hchange, hsync⟩ :=
      h.reloadValues hheads.drift hheads.tick.drift hheads.tick.kinds role
    refine ⟨report, ⟨caches', shared.tick.tick⟩, ?_, hsync⟩
    exact (Load.fetch_commit_of_ok ((Shared.source limit).reloadValues_eq role)
      (Shared.fetchValues_source limit role shared)).trans (Load.commit_of_ok hchange)
  | jobCeilings job =>
    obtain ⟨rows, after, hfetch, hrows⟩ := Shared.fetchJob_source limit hheads job
    obtain ⟨caches', report, hchange, hsync⟩ := h.reloadJob hheads.drift hrows
    refine ⟨report, ⟨caches', after⟩, ?_, hsync⟩
    exact (Load.fetch_commit_of_ok ((Shared.source limit).reloadJob_eq job) hfetch).trans
      (Load.commit_of_ok hchange)

/-- **An announced change is mirrored when the event has been applied.**  The caches mirror a store,
one operation changes it, and nobody else does: an event that announces what was changed is applied
without a fault, and then the caches mirror the changed store. -/
theorem Caches.Mirrors.applyEvent {caches : Caches} {store : MemoryStore} (h : caches.Mirrors store)
    (hsound : store.Sound) (hkinds : store.WellKinded) {op : Operation}
    (hroom : (store.after op).next ≤ UInt64.size) (hfits : op.Fits store) (limit : Duration)
    {event : Event} (hannounced : ∀ part, op.Touches store part → event.Refreshes part) :
    ∃ report after, (MemoryStore.source limit).applyEvent event ⟨caches, store.after op⟩ =
        (.ok report, after) ∧
      after.store = store.after op ∧ after.caches.Mirrors (store.after op) := by
  have hdrift := drift_after hsound hroom hfits
  have hheads : (Shared.alone (store.after op)).Heads (fun _ => False) (store.after op) := {
    sound := hdrift.sound'
    kinds := hdrift.kinds hkinds
    settles := rfl
    room := hroom
    fits := nofun
    touches := nofun }
  obtain ⟨report, after, hrun, hsync⟩ :=
    ((h.inSync hsound hkinds).drift hdrift).applyEvent hheads limit event
  have hsettled := Shared.settled_applyEvent limit event ⟨caches, Shared.alone (store.after op)⟩
  have hsame := (Shared.embeds_alone limit).applyEvent event ⟨caches, store.after op⟩
  rw [hrun] at hsettled
  rw [Loaded.mapStore, hrun] at hsame
  obtain ⟨hreport, rfl⟩ := Prod.mk.inj hsame
  refine ⟨report, _, Prod.ext hreport.symm rfl, hsettled, hsync.mirrors fun part hdue => ?_⟩
  obtain htouched | ⟨htouched | ⟨hbefore, -⟩, hnot⟩ := hdue
  · exact htouched
  · exact hnot (hannounced part htouched)
  · exact hbefore

end GradedAccess
