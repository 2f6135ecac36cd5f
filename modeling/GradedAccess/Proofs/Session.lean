import GradedAccess.Proofs.Reload.FullLoad
import GradedAccess.Proofs.Roles.Single
import GradedAccess.Proofs.Store.Shared

/-!
# Sessions

A session is everything that can have happened to a store in memory and to the caches of one
engine beside it, from nothing at all.  The store is operated on, and the engine calls its loader:
it reloads a scope, applies an event or enrols a registry.  Others may operate on the store between
any two requests of a call.  Calls may fail; whatever they have left is there for the next step.

Not much can be said of caches in the middle of a session.  What can be said is `Consistent`: the
store keeps its rules, the cached roles are filed under their own numbers, and every cached key
leads to an attribute of the store that has this key.  It is just what a full load needs, and so a
full load makes the caches mirror the store whatever happened before (`mirrors_of_loadAll`).
-/

namespace GradedAccess

namespace Session

/-- Something an engine asks of its loader. -/
inductive Call where
  | reload (scope : Scope)
  | apply (event : Event)
  | enrol (registry : Registry)

/-- A step of a session.  A call comes with what others do after each of its requests. -/
inductive Step where
  | operation (op : Operation)
  | call (call : Call) (meanwhile : List (List Operation))

/-- What a call leaves of caches and a shared store. -/
def Call.after (limit : Duration) : Call → Loaded Shared → Loaded Shared
  | .reload scope, state => ((Shared.source limit).reload scope state).2
  | .apply event, state => ((Shared.source limit).applyEvent event state).2
  | .enrol registry, state => (Load.ofFetch ((Shared.source limit).enrol registry) state).2

/-- What a step leaves of caches and a store. -/
def step (limit : Duration) (state : Loaded MemoryStore) : Step → Loaded MemoryStore
  | .operation op => { state with store := state.store.after op }
  | .call call meanwhile =>
    let loaded := call.after limit ⟨state.caches, ⟨state.store, meanwhile⟩⟩
    ⟨loaded.caches, loaded.store.settled⟩

/-- What some steps leave of caches and a store. -/
def run (limit : Duration) (steps : List Step) (state : Loaded MemoryStore) :
    Loaded MemoryStore :=
  steps.foldl (step limit) state

/-- The caches and the store of a session that begins with nothing. -/
def reached (limit : Duration) (steps : List Step) : Loaded MemoryStore := run limit steps ⟨{}, {}⟩

variable {limit : Duration}

@[simp] theorem run_nil (limit : Duration) (state : Loaded MemoryStore) :
    run limit [] state = state := rfl

@[simp] theorem run_cons (limit : Duration) (first : Step) (steps : List Step)
    (state : Loaded MemoryStore) :
    run limit (first :: steps) state = run limit steps (step limit state first) := rfl

/-! ## What lasts in a session -/

/-- What holds of the caches and the store of a session at any time. -/
structure Consistent (state : Loaded MemoryStore) : Prop where
  sound : state.store.Sound
  filed : state.caches.roles.Filed
  keys : state.caches.KeysAgree state.store

/-- Whether a stretch of a session leads from one state to another: the store evolves, cached roles
stay filed, and cached keys go on leading to attributes that have them. -/
structure Continues (state state' : Loaded MemoryStore) : Prop where
  evolves : state.store.Evolves state'.store
  filed : state.caches.roles.Filed → state'.caches.roles.Filed
  keys : state.store.Sound → state'.store.next ≤ UInt64.size → state.caches.KeysAgree state.store →
    state'.caches.KeysAgree state'.store

theorem Continues.consistent {state state' : Loaded MemoryStore} (h : Continues state state')
    (hstate : Consistent state) (hroom : state'.store.next ≤ UInt64.size) : Consistent state' where
  sound := h.evolves.sound hstate.sound hroom
  filed := h.filed hstate.filed
  keys := h.keys hstate.sound hroom hstate.keys

theorem Continues.trans {state state' state'' : Loaded MemoryStore}
    (h : Continues state state') (h' : Continues state' state'') : Continues state state'' where
  evolves := h.evolves.trans h'.evolves
  filed hfiled := h'.filed (h.filed hfiled)
  keys hsound hroom hkeys := by
    have hbefore := Nat.le_trans h'.evolves.next_le hroom
    exact h'.keys (h.evolves.sound hsound hbefore) hroom (h.keys hsound hbefore hkeys)

/-- A cached key goes on leading to an attribute that has it, whatever happens to the store. -/
theorem keysAgree_of_evolves {caches : Caches} {store store' : MemoryStore}
    (h : store.Evolves store') (hsound : store.Sound) (hroom : store'.next ≤ UInt64.size)
    (hkeys : caches.KeysAgree store) : caches.KeysAgree store' := by
  intro permission key id hkey
  obtain ⟨row, hrow, hpermission, hown⟩ := hkeys hkey
  obtain ⟨row', hrow', hpermission', hown'⟩ := h.lasting hsound hroom hrow
  exact ⟨row', hrow', hpermission'.trans hpermission, hown'.trans hown⟩

/-- A stretch that leaves the catalog alone. -/
theorem Continues.of_catalog_eq {caches caches' : Caches} {store store' : MemoryStore}
    (h : store.Evolves store') (hcatalog : caches'.catalog = caches.catalog)
    (hfiled : caches.roles.Filed → caches'.roles.Filed) :
    Continues ⟨caches, store⟩ ⟨caches', store'⟩ where
  evolves := h
  filed := hfiled
  keys hsound hroom hkeys := by
    intro permission key id hkey
    rw [hcatalog] at hkey
    exact keysAgree_of_evolves h hsound hroom hkeys hkey

/-! ## What a loader does -/

/-- The caches and the store as they are in the middle of a call. -/
def now (loaded : Loaded Shared) : Loaded MemoryStore := ⟨loaded.caches, loaded.store.store⟩

/-- Whether a load is a stretch of a session wherever it is run. -/
def Keeps {α : Type} (program : Load Shared α) : Prop :=
  Fetch.Relates (fun loaded loaded' => Continues (now loaded) (now loaded')) program

theorem Keeps.bind {α β : Type} {first : Load Shared α} {next : α → Load Shared β}
    (hfirst : Keeps first) (hnext : ∀ a, Keeps (next a)) : Keeps (first >>= next) :=
  Fetch.Relates.bind (fun _ _ _ h h' => h.trans h') hfirst hnext

theorem Keeps.ofFetch {α : Type} {fetch : Fetch Shared α} (h : Shared.Follows fetch) :
    Keeps (Load.ofFetch fetch) := fun loaded => .of_catalog_eq (h loaded.store) rfl id

/-- A commit that leaves the catalog alone. -/
theorem Keeps.commit {change : Caches → Except Fault (Caches × Report)}
    (h : ∀ caches caches' report, change caches = .ok (caches', report) →
      caches'.catalog = caches.catalog ∧ (caches.roles.Filed → caches'.roles.Filed)) :
    Keeps (Load.commit change) := by
  intro loaded
  rw [Load.commit]
  split
  · next caches report hchange =>
    obtain ⟨hcatalog, hfiled⟩ := h _ _ _ hchange
    exact .of_catalog_eq (.refl loaded.store.store) hcatalog hfiled
  · exact .of_catalog_eq (.refl loaded.store.store) rfl id

theorem keeps_reloadGrants (limit : Duration) (id : RoleId) :
    Keeps ((Shared.source limit).reloadGrants id) := by
  have hfetch := (Shared.respects_evolves limit).fetchGrants id
  rw [Source.reloadGrants_eq]
  refine .bind (.ofFetch hfetch) fun ⟨role, rows⟩ => .commit ?_
  intro caches caches' report hchange
  cases role with
  | none =>
    cases hchange
    exact ⟨rfl, fun hfiled => hfiled.remove id⟩
  | some row =>
    cases hchange
    exact ⟨rfl, fun hfiled => hfiled.upsert row⟩

theorem keeps_reloadValues (limit : Duration) (id : RoleId) :
    Keeps ((Shared.source limit).reloadValues id) := by
  have hfetch := (Shared.respects_evolves limit).fetchValues id
  rw [Source.reloadValues_eq]
  refine .bind (.ofFetch hfetch) fun ⟨role, rows⟩ => .commit ?_
  intro caches caches' report hchange
  cases role with
  | none =>
    cases hchange
    exact ⟨rfl, fun hfiled => hfiled.remove id⟩
  | some row =>
    obtain ⟨values, -, hcommit⟩ := bind_eq_ok_iff.mp hchange
    cases hcommit
    exact ⟨rfl, fun hfiled => hfiled.upsert row⟩

theorem keeps_reloadJob (limit : Duration) (job : String) :
    Keeps ((Shared.source limit).reloadJob job) := by
  rw [Source.reloadJob_eq]
  refine .bind (.ofFetch ((Shared.respects_evolves limit).fetchJob job)) fun rows => .commit ?_
  intro caches caches' report hchange
  simp only [Caches.reloadJob, bind_eq_ok_iff] at hchange
  obtain ⟨ceilings, -, values, -, hcommit⟩ := hchange
  cases hcommit
  exact ⟨rfl, fun hfiled => hfiled.replaceJob job _⟩

/-- The rows a full load fetches include the attributes as they were at some time in between. -/
theorem attributes_of_fetchAll (limit : Duration) (shared : Shared) {rows : Rows}
    (h : ((Shared.source limit).fetchAll shared).1 = .ok rows) :
    ∃ between : MemoryStore, shared.store.Evolves between ∧
      between.Evolves ((Shared.source limit).fetchAll shared).2.store ∧
        rows.attributes = between.attributes.values := by
  refine ⟨shared.tick.store, shared.evolves_tick, ?_, ?_⟩
  · have hend : ((Shared.source limit).fetchAll shared).2 =
        shared.tick.tick.tick.tick.tick.tick := rfl
    rw [hend]
    exact (((((Shared.evolves_tick _).trans (Shared.evolves_tick _)).trans
      (Shared.evolves_tick _)).trans (Shared.evolves_tick _)).trans (Shared.evolves_tick _))
  · cases h
    rfl

/-- After a full load every key leads to an attribute that was fetched, or led to the same one
before. -/
theorem keys_of_load {caches after : Caches} {report : Report} {rows : Rows}
    (h : caches.load rows = .ok (after, report)) {permission : PermissionId} {key : String}
    {id : AttributeId} (hkey : after.catalog.keys[(permission, key)]? = some id) :
    (∃ row ∈ rows.attributes, row.id = id ∧ row.permission = permission ∧ row.key = key) ∨
      caches.catalog.keys[(permission, key)]? = some id := by
  obtain ⟨_, _, -, -, rfl⟩ := Caches.load_eq_ok h
  rw [Catalog.getElem?_keys_replaceAttributes, Option.or_eq_some_iff] at hkey
  rcases hkey with hlast | ⟨-, hkept⟩
  · left
    obtain ⟨row, hmem, hrow⟩ := List.mem_map.mp (PairTable.mem_of_lastFor hlast)
    obtain ⟨id', hfound⟩ := mem_values_iff.mp hmem
    rw [Caches.knownAttributes, PairTable.getElem?_ofList] at hfound
    obtain ⟨fetched, hfetched, hsame⟩ := List.mem_map.mp (PairTable.mem_of_lastFor hfound)
    obtain rfl : fetched = row := congrArg Prod.snd hsame
    refine ⟨fetched, (List.mem_filter.mp hfetched).1, congrArg Prod.snd hrow, ?_⟩
    exact Prod.mk.inj (congrArg Prod.fst hrow)
  · right
    exact (Option.filter_eq_some_iff.mp hkept).1

theorem keeps_loadAll (limit : Duration) : Keeps (Shared.source limit).loadAll := by
  intro loaded
  obtain ⟨hstore, hcaches⟩ := Load.fetch_commit_cases (Shared.source limit).loadAll_eq loaded
  have hevolves : loaded.store.store.Evolves
      ((Shared.source limit).loadAll loaded).2.store.store := by
    rw [hstore]
    exact (Shared.respects_evolves limit).fetchAll loaded.store
  rcases hcaches with hcaches | ⟨rows, report, hrows, hload⟩
  · refine .of_catalog_eq hevolves (congrArg _ hcaches) fun hfiled => ?_
    rw [hcaches]
    exact hfiled
  · refine ⟨hevolves, fun hfiled => ?_, fun hsound hroom hkeys permission key id hkey => ?_⟩
    · obtain ⟨_, _, -, -, hafter⟩ := Caches.load_eq_ok hload
      have hroles := congrArg Caches.roles hafter
      rw [now, hroles]
      exact hfiled.replaceAll rows.roles
    · rcases keys_of_load hload hkey with ⟨row, hmem, rfl, hrow⟩ | hbefore
      · -- a fetched attribute was in the store then, and has its key for good
        obtain ⟨between, hthen, hsince, hattributes⟩ := attributes_of_fetchAll limit _ hrows
        rw [← hstore] at hsince
        have hsound' := hthen.sound hsound (Nat.le_trans hsince.next_le hroom)
        rw [hattributes] at hmem
        obtain ⟨id, hfound⟩ := mem_values_iff.mp hmem
        obtain rfl := hsound'.attribute_id hfound
        obtain ⟨row', hrow', hpermission', hkey'⟩ := hsince.lasting hsound' hroom hfound
        exact ⟨row', hrow', hpermission'.trans hrow.1, hkey'.trans hrow.2⟩
      · exact keysAgree_of_evolves hevolves hsound hroom hkeys hbefore

/-- Every reload of a session goes on with it. -/
theorem carries (limit : Duration) : (Shared.source limit).Carries
    fun loaded loaded' => Continues (now loaded) (now loaded') where
  refl loaded := .of_catalog_eq (.refl loaded.store.store) rfl id
  trans _ _ _ h h' := h.trans h'
  loadAll := keeps_loadAll limit
  reloadGrants := keeps_reloadGrants limit
  reloadValues := keeps_reloadValues limit
  reloadJob := keeps_reloadJob limit

/-! ## Whole sessions -/

/-- Every step goes on with a session. -/
theorem continues_step (limit : Duration) (state : Loaded MemoryStore) (first : Step) :
    Continues state (step limit state first) := by
  cases first with
  | operation op => exact .of_catalog_eq (state.store.evolves_after op) rfl id
  | call call meanwhile =>
    have hcall : Continues state
        (now (call.after limit ⟨state.caches, ⟨state.store, meanwhile⟩⟩)) := by
      cases call with
      | reload scope => exact (carries limit).reload scope ⟨state.caches, ⟨state.store, meanwhile⟩⟩
      | apply event => exact (carries limit).applyEvent event ⟨state.caches, ⟨state.store, meanwhile⟩⟩
      | enrol registry =>
        exact Keeps.ofFetch (Shared.follows_enrol limit registry)
          ⟨state.caches, ⟨state.store, meanwhile⟩⟩
    exact hcall.trans (.of_catalog_eq (Shared.evolves_settled _) rfl id)

theorem continues_run (limit : Duration) (steps : List Step) (state : Loaded MemoryStore) :
    Continues state (run limit steps state) := by
  induction steps generalizing state with
  | nil => exact .of_catalog_eq (.refl state.store) rfl id
  | cons first steps ih =>
    rw [run_cons]
    exact (continues_step limit state first).trans (ih _)

theorem consistent_nil : Consistent ⟨{}, {}⟩ where
  sound := MemoryStore.sound_empty
  filed id row hrow := by simp [RoleIndex.role] at hrow
  keys permission key id hkey := by simp at hkey

/-- Whatever has happened, a session is consistent as long as there are numbers left. -/
theorem consistent_reached {steps : List Step}
    (hroom : (reached limit steps).store.next ≤ UInt64.size) : Consistent (reached limit steps) :=
  (continues_run limit steps _).consistent consistent_nil hroom

/-- A full load leaves the store alone. -/
theorem store_loadAll (limit : Duration) (state : Loaded MemoryStore) :
    ((MemoryStore.source limit).loadAll state).2.store = state.store :=
  (Load.fetch_commit_cases (MemoryStore.source limit).loadAll_eq state).1

/-- After a full load that succeeds, the caches mirror the store. -/
theorem mirrors_of_loadAll {state loaded : Loaded MemoryStore} {report : Report}
    (h : Consistent state)
    (hload : (MemoryStore.source limit).loadAll state = (.ok report, loaded)) :
    loaded.caches.Mirrors state.store ∧ state.store.WellKinded := by
  have hrun : (MemoryStore.source limit).loadAll state =
      Load.commit (fun caches => caches.load state.store.rows) state :=
    Load.fetch_commit_of_ok (MemoryStore.source limit).loadAll_eq
      (MemoryStore.fetchAll_source limit state.store)
  rw [hrun] at hload
  cases hchange : state.caches.load state.store.rows with
  | error fault =>
    rw [Load.commit, hchange] at hload
    cases hload
  | ok changed =>
    rw [Load.commit_of_ok hchange] at hload
    cases hload
    exact ⟨.of_load h.sound h.filed h.keys hchange,
      (Caches.exists_load_iff h.sound).mp ⟨_, _, hchange⟩⟩

/-- A session in which a permission and its attribute are created, and a role of the police that is
granted the permission and has a value of the attribute. -/
def hiring : List Step :=
  [.operation (.createPermission ⟨"citizens", "List", 0⟩),
    .operation (.createAttribute
      ⟨⟨1⟩, "fields", .stringList, some (.strings ⟨["name", "phone"]⟩)⟩),
    .operation (.createRole "police" 5),
    .operation (.setGrant ⟨3⟩ ⟨1⟩ (some true)),
    .operation (.setValue ⟨3⟩ ⟨2⟩ (some (.strings ⟨["name", "address"]⟩)))]

end Session

end GradedAccess
