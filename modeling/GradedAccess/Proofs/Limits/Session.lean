import GradedAccess.Proofs.Limits.Bounded
import GradedAccess.Proofs.Session
import GradedAccess.Proofs.Store.Unsteady
import GradedAccess.Resolution

/-!
# Limits in a session

A session here is one in which everything may go wrong.  The store is operated on, and an engine
calls its loader: it reloads a scope, applies an event or enrols a registry.  Each request of a call
may be answered, refused or lost, and others may operate on the store after it.  So a call may fail
at any point, and a reload of a role may fail halfway.

Still no cached value of a role in a chain exceeds its limits at any time (`values_within_limits`).
A call that fails has changed nothing, or it is the first half of a reload, and that is a reload of
its own.  So it is enough that every reload keeps the caches bounded by the store it has fetched the
roles from, and that bounded caches stay so while the store ages (`Lasts`).
-/

namespace GradedAccess

/-- What a call leaves of caches and the state of a source. -/
def Session.Call.via {σ : Type} (source : Source σ) : Session.Call → Loaded σ → Loaded σ
  | .reload scope, state => (source.reload scope state).2
  | .apply event, state => (source.applyEvent event state).2
  | .enrol registry, state => (Load.ofFetch (source.enrol registry) state).2

namespace Unsteady

/-- A step of a session.  A call comes with what becomes of its requests. -/
inductive Step where
  | operation (op : Operation)
  | call (call : Session.Call) (turns : List Turn)

/-- What a step leaves of caches and a store. -/
def step (limit : Duration) (state : Loaded MemoryStore) : Step → Loaded MemoryStore
  | .operation op => { state with store := state.store.after op }
  | .call call turns =>
    let loaded := call.via (source limit) ⟨state.caches, ⟨state.store, turns⟩⟩
    ⟨loaded.caches, loaded.store.settled⟩

/-- The caches and the store after some steps from nothing. -/
def reached (limit : Duration) (steps : List Step) : Loaded MemoryStore :=
  steps.foldl (step limit) ⟨{}, {}⟩

variable {limit : Duration} {steps : List Step} {α : Type}

@[simp] theorem reached_nil (limit : Duration) : reached limit [] = ⟨{}, {}⟩ := rfl

@[simp] theorem reached_concat (limit : Duration) (steps : List Step) (last : Step) :
    reached limit (steps ++ [last]) = step limit (reached limit steps) last := by
  rw [reached, List.foldl_append]
  rfl

/-! ## What lasts in a session -/

/-- Whether a stretch of a session leads from one state to another: the store ages, and bounded
caches stay bounded. -/
structure Lasts (state state' : Loaded MemoryStore) : Prop where
  ages : state.store.Ages state'.store
  bounded : state.store.Sound → state'.store.next ≤ UInt64.size →
    state.caches.Bounded state.store → state'.caches.Bounded state'.store

theorem Lasts.trans {state state' state'' : Loaded MemoryStore} (h : Lasts state state')
    (h' : Lasts state' state'') : Lasts state state'' where
  ages := h.ages.trans h'.ages
  bounded hsound hroom hbounded := by
    have hbefore := Nat.le_trans h'.ages.next_le hroom
    exact h'.bounded (h.ages.sound hsound hbefore) hroom (h.bounded hsound hbefore hbounded)

/-- A stretch that leaves the caches alone. -/
theorem Lasts.of_ages {caches : Caches} {store store' : MemoryStore} (h : store.Ages store') :
    Lasts ⟨caches, store⟩ ⟨caches, store'⟩ where
  ages := h
  bounded hsound hroom hbounded := hbounded.age h hsound hroom

/-- The caches and the store as they are in the middle of a call. -/
def now (loaded : Loaded Unsteady) : Loaded MemoryStore := ⟨loaded.caches, loaded.store.store⟩

/-- Whether a load is a stretch of a session wherever it is run and however it ends. -/
def Keeps (program : Load Unsteady α) : Prop :=
  Fetch.Relates (fun loaded loaded' => Lasts (now loaded) (now loaded')) program

/-- A fetch and a commit keep caches bounded if the commit does so with respect to the store as it
was at some time during the fetch. -/
theorem Keeps.fetch_commit {program : Load Unsteady Report} {fetch : Fetch Unsteady α}
    {change : α → Caches → Except Fault (Caches × Report)}
    (hprogram : program = Load.ofFetch fetch >>= fun rows => Load.commit (change rows))
    (hages : Fetch.Relates (fun unsteady unsteady' => unsteady.store.Ages unsteady'.store) fetch)
    (hchange : ∀ {unsteady unsteady' : Unsteady} {rows : α},
      fetch unsteady = (.ok rows, unsteady') → ∃ between : MemoryStore,
        unsteady.store.Ages between ∧ between.Ages unsteady'.store ∧
        ∀ {caches after : Caches} {report : Report}, between.Sound → caches.Bounded between →
          change rows caches = .ok (after, report) → after.Bounded between) :
    Keeps program := by
  intro loaded
  have hfetch : loaded.store.store.Ages (fetch loaded.store).2.store := hages loaded.store
  obtain ⟨hstore, hcaches⟩ := Load.fetch_commit_cases hprogram loaded
  generalize (program loaded).2 = after at hstore hcaches ⊢
  rw [← hstore] at hfetch
  rcases hcaches with hcaches | ⟨rows, report, hrows, hcommit⟩
  · have hnow : now after = ⟨loaded.caches, after.store.store⟩ := by rw [now, hcaches]
    rw [hnow]
    exact .of_ages hfetch
  · have hrun : fetch loaded.store = (.ok rows, after.store) := Prod.ext hrows hstore.symm
    obtain ⟨between, hbefore, hsince, hbounded⟩ := hchange hrun
    refine ⟨hfetch, fun hsound hroom hstate => ?_⟩
    have hroom' : between.next ≤ UInt64.size := Nat.le_trans hsince.next_le hroom
    have hsound' : between.Sound := hbefore.sound hsound hroom'
    have hthen := hbounded hsound' (hstate.age hbefore hsound hroom') hcommit
    exact hthen.age hsince hsound' hroom

/-! ## What a loader does -/

theorem keeps_loadAll (limit : Duration) : Keeps (source limit).loadAll := by
  refine .fetch_commit (source limit).loadAll_eq (respects_ages limit).fetchAll fun hrun => ?_
  obtain ⟨between, hbefore, hsince, hroles⟩ := roles_of_fetchAll hrun
  exact ⟨between, hbefore, hsince, fun hsound hbounded hload =>
    Caches.bounded_of_load hsound hbounded.roles.filed hroles hload⟩

theorem keeps_reloadGrants (limit : Duration) (id : RoleId) :
    Keeps ((source limit).reloadGrants id) := by
  have hages := (respects_ages limit).fetchGrants id
  refine .fetch_commit ((source limit).reloadGrants_eq id) hages
    fun {unsteady _ rows} hrun => ?_
  refine ⟨unsteady.store, .refl _, ages_of_run hages hrun, fun hsound hbounded hchange => ?_⟩
  rw [role_of_fetchGrants hrun] at hchange
  have hafter := congrArg Prod.fst (Except.ok.inj hchange)
  simp only at hafter
  exact hafter ▸ hbounded.reloadGrants hsound id rows.2

theorem keeps_reloadValues (limit : Duration) (id : RoleId) :
    Keeps ((source limit).reloadValues id) := by
  have hages := (respects_ages limit).fetchValues id
  refine .fetch_commit ((source limit).reloadValues_eq id) hages
    fun {unsteady _ rows} hrun => ?_
  refine ⟨unsteady.store, .refl _, ages_of_run hages hrun, fun hsound hbounded hchange => ?_⟩
  rw [role_of_fetchValues hrun] at hchange
  exact hbounded.reloadValues hsound hchange

theorem keeps_reloadJob (limit : Duration) (job : String) :
    Keeps ((source limit).reloadJob job) := by
  have hages := (respects_ages limit).fetchJob job
  refine .fetch_commit ((source limit).reloadJob_eq job) hages
    fun {unsteady _ rows} hrun => ?_
  refine ⟨unsteady.store, .refl _, ages_of_run hages hrun, fun hsound hbounded hchange => ?_⟩
  exact hbounded.reloadJob hsound (roles_of_fetchJob hrun) hchange

/-- Every reload is a stretch of a session. -/
theorem carries (limit : Duration) : (source limit).Carries
    fun loaded loaded' => Lasts (now loaded) (now loaded') where
  refl _ := .of_ages (.refl _)
  trans _ _ _ h h' := h.trans h'
  loadAll := keeps_loadAll limit
  reloadGrants := keeps_reloadGrants limit
  reloadValues := keeps_reloadValues limit
  reloadJob := keeps_reloadJob limit

/-! ## Whole sessions -/

/-- A call goes on with a session, however its requests end. -/
theorem lasts_call (limit : Duration) (call : Session.Call) (loaded : Loaded Unsteady) :
    Lasts (now loaded) (now (call.via (source limit) loaded)) := by
  cases call with
  | reload scope => exact (carries limit).reload scope loaded
  | apply event => exact (carries limit).applyEvent event loaded
  | enrol registry => exact .of_ages (ages_enrol limit registry loaded.store)

theorem lasts_step (limit : Duration) (state : Loaded MemoryStore) (next : Step) :
    Lasts state (step limit state next) := by
  cases next with
  | operation op => exact .of_ages (state.store.ages_after op)
  | call call turns =>
    have hcall := lasts_call limit call ⟨state.caches, ⟨state.store, turns⟩⟩
    exact hcall.trans (.of_ages (ages_settled _))

theorem lasts_reached (limit : Duration) (steps : List Step) :
    Lasts ⟨{}, {}⟩ (reached limit steps) := by
  induction steps using List.reverseRecOn with
  | nil => exact .of_ages (.refl _)
  | append_singleton steps last ih =>
    rw [reached_concat]
    exact ih.trans (lasts_step limit _ last)

/-- Whatever has happened, the caches are bounded as long as there are numbers left. -/
theorem bounded_reached (hroom : (reached limit steps).store.next ≤ UInt64.size) :
    (reached limit steps).caches.Bounded (reached limit steps).store :=
  (lasts_reached limit steps).bounded MemoryStore.sound_empty hroom (Caches.bounded_empty _)

end Unsteady

/-- A value that is found for an attribute is of the kind of the attribute. -/
theorem Caches.Bounded.exists_attrOf {caches : Caches} {store : MemoryStore}
    (h : caches.Bounded store) (identity : Identity) (category name key : String) :
    ∃ value, caches.attrOf identity category name key = .ok value := by
  unfold Caches.attrOf
  split
  · exact ⟨none, rfl⟩
  · next attr hattr =>
    split
    · exact ⟨some attr.valid, rfl⟩
    · split
      · exact ⟨none, rfl⟩
      · next value hvalue =>
        obtain ⟨id, hmem, hfound⟩ := List.exists_of_findSome?_eq_some hvalue
        obtain ⟨grade, -, hslot⟩ := RoleIndex.mem_chain_iff.mp (List.mem_reverse.mp hmem)
        obtain ⟨row, hrow, hkind, -⟩ := h.within hslot hfound
        obtain ⟨permission, -, hkey⟩ := Option.bind_eq_some_iff.mp hattr
        obtain ⟨number, -, hknown⟩ := Option.bind_eq_some_iff.mp hkey
        have hsame : attr = row := by
          rw [← h.attribute_id hknown, hrow] at hknown
          exact (Option.some.inj hknown).symm
        subst hsame
        have hdefault : AttributeValue.orDefault attr.kind (some value) = .ok value :=
          AttributeValue.orDefault_eq_ok_iff.mpr ⟨fun v hv => Option.some.inj hv ▸ hkind, rfl⟩
        exact ⟨some value, by rw [hdefault]; rfl⟩

namespace Unsteady

/-- **No cached value exceeds its limits.**  Whatever has happened to a store and to the caches
beside it, a cached value of a role that counts for a grade of a job is of a known attribute and of
its kind, and neither the valid values of the attribute nor the cached ceiling of the job would
change it.  So nobody who asks for a value is given an error. -/
theorem values_within_limits (hroom : (reached limit steps).store.next ≤ UInt64.size) :
    let caches := (reached limit steps).caches
    (∀ job grade, ∀ id ∈ caches.roles.chain job grade, ∀ attr value,
      caches.value id attr = some value → ∃ row, caches.catalog.attr attr = some row ∧
        value.kind = row.kind ∧
        value.check row.kind (some row.valid) (caches.ceiling job attr) =
          .ok ⟨value, true, false⟩) ∧
    ∀ identity category name key, ∃ value, caches.attrOf identity category name key = .ok value := by
  intro caches
  have hbounded : caches.Bounded (reached limit steps).store := bounded_reached hroom
  refine ⟨fun job grade id hmem attr value hvalue => ?_, hbounded.exists_attrOf⟩
  obtain ⟨own, -, hslot⟩ := RoleIndex.mem_chain_iff.mp hmem
  exact hbounded.within hslot hvalue

/-- A role with a value is loaded.  Then its job gets a ceiling, and there are three reloads: at
first there is no answer when the values are fetched, then the role is reloaded only halfway, and
then the ceiling is loaded while another value is set. -/
def lockdown : List Step :=
  [.operation (.createPermission ⟨"citizens", "List", 0⟩),
    .operation (.createAttribute
      ⟨⟨1⟩, "fields", .stringList, some (.strings ⟨["name", "phone", "email"]⟩)⟩),
    .operation (.createRole "police" 5),
    .operation (.setValue ⟨3⟩ ⟨2⟩ (some (.strings ⟨["phone", "name"]⟩))),
    .call (.reload .all) [],
    .operation (.setCeiling "police" ⟨2⟩ (some (.strings ⟨["name", "email"]⟩))),
    .call (.apply (.jobCeilings "police")) [{}, {}, {}, { ending := .silent }],
    .call (.reload (.role ⟨3⟩))
      [{}, {}, {}, { ending := .refused (.databaseOffline "list role attribute values") }],
    .call (.reload (.job "police"))
      [{}, {}, {}, { meanwhile := [.setValue ⟨3⟩ ⟨2⟩ (some (.strings ⟨["phone"]⟩))] }]]

/-- The cached value goes down to the ceiling together with the caches' learning of it. -/
theorem lockdown_lowers_value :
    let caches := (reached (.ofSeconds 5) lockdown).caches
    (reached (.ofSeconds 5) lockdown).store.next ≤ UInt64.size ∧
      (reached (.ofSeconds 5) (lockdown.take 8)).caches.value ⟨3⟩ ⟨2⟩ =
        some (.strings ⟨["phone", "name"]⟩) ∧
      caches.roles.chain "police" 7 = [⟨3⟩] ∧
      caches.ceiling "police" ⟨2⟩ = some (.strings ⟨["name", "email"]⟩) ∧
      caches.value ⟨3⟩ ⟨2⟩ = some (.strings ⟨["name"]⟩) ∧
      ∃ row, caches.catalog.attr ⟨2⟩ = some row ∧ AttributeKind.stringList = row.kind ∧
        (AttributeValue.strings ⟨["name"]⟩).check row.kind (some row.valid)
          (caches.ceiling "police" ⟨2⟩) = .ok ⟨.strings ⟨["name"]⟩, true, false⟩ := by
  have hroom : (reached (.ofSeconds 5) lockdown).store.next ≤ UInt64.size := by decide +kernel
  have hbefore : (reached (.ofSeconds 5) (lockdown.take 8)).caches.value ⟨3⟩ ⟨2⟩ =
      some (.strings ⟨["phone", "name"]⟩) := by decide +kernel
  have hchain : (reached (.ofSeconds 5) lockdown).caches.roles.chain "police" 7 = [⟨3⟩] := by
    decide +kernel
  have hceiling : (reached (.ofSeconds 5) lockdown).caches.ceiling "police" ⟨2⟩ =
      some (.strings ⟨["name", "email"]⟩) := by decide +kernel
  have hvalue : (reached (.ofSeconds 5) lockdown).caches.value ⟨3⟩ ⟨2⟩ =
      some (.strings ⟨["name"]⟩) := by decide +kernel
  have hmem : (⟨3⟩ : RoleId) ∈ (reached (.ofSeconds 5) lockdown).caches.roles.chain "police" 7 := by
    simp [hchain]
  exact ⟨hroom, hbefore, hchain, hceiling, hvalue,
    (values_within_limits hroom).1 "police" 7 ⟨3⟩ hmem ⟨2⟩ _ hvalue⟩

end Unsteady

end GradedAccess
