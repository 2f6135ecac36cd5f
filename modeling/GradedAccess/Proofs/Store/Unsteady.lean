import GradedAccess.Proofs.Reload.Program
import GradedAccess.Proofs.Store.History

/-!
# A store that may be out of reach

What lies between an engine and its store may fail: a request may be refused with some fault, or
get no answer in time.  `Unsteady` is a store in memory behind such a connection.  Its state says
for each of the next requests how it ends, and what others do to the store right after it; when no
turns are left, requests are simply answered.

A request may also be carried out although its answer is lost.  That needs no case of its own.  It
is the case of a request that is lost, after which someone else does what it had asked for.

Roles come first in most of what a loader fetches, and then they are those of the store as it was
when the fetch began; a full load lists them a little later.  In any case nothing but the store
itself is where they come from, at some time before the fetch ended.
-/

namespace GradedAccess

/-- How a request ends. -/
inductive Ending where
  | answered
  | refused (fault : Fault)
  /-- There is no answer within the limit. -/
  | silent
  deriving DecidableEq

/-- How a request ends, and what others do after it. -/
structure Turn where
  ending : Ending := .answered
  meanwhile : List Operation := []
  deriving DecidableEq

/-- A store in memory, and what becomes of the next requests. -/
structure Unsteady where
  store : MemoryStore
  turns : List Turn := []

namespace Unsteady

variable {α : Type} {limit : Duration} {unsteady unsteady' : Unsteady}

/-- What becomes of a request that ends in a certain way. -/
def reply (ending : Ending) (request : Request α) (store : MemoryStore) :
    Option (Except Fault α) × MemoryStore :=
  match ending with
  | .answered =>
    let (answer, store) := MemoryStore.answer request store
    (some answer, store)
  | .refused fault => (some (.error fault), store)
  | .silent => (none, store)

/-- The answer to a request, if there is one, after which others have their turn. -/
def ask (request : Request α) (_limit : Duration) (unsteady : Unsteady) :
    Option (Except Fault α) × Unsteady :=
  let turn := unsteady.turns.headD {}
  let (answer, store) := reply turn.ending request unsteady.store
  (answer, ⟨store.afterAll turn.meanwhile, unsteady.turns.tail⟩)

/-- A source that may be out of reach. -/
def source (limit : Duration) : Source Unsteady := ⟨⟨ask⟩, limit⟩

/-- The store when others are done. -/
def settled (unsteady : Unsteady) : MemoryStore :=
  unsteady.store.afterAll (unsteady.turns.flatMap (·.meanwhile))

theorem ages_settled (unsteady : Unsteady) : unsteady.store.Ages unsteady.settled :=
  unsteady.store.ages_afterAll _

/-! ## Single requests -/

theorem ages_reply (ending : Ending) (request : Request α) (store : MemoryStore) :
    store.Ages (reply ending request store).2 := by
  cases ending with
  | answered => exact MemoryStore.ages_answer request store
  | refused fault => exact .refl store
  | silent => exact .refl store

/-- Only the store itself answers requests. -/
theorem answer_of_reply {ending : Ending} {request : Request α} {store : MemoryStore} {a : α}
    (h : (reply ending request store).1 = some (.ok a)) :
    (MemoryStore.answer request store).1 = .ok a := by
  cases ending with
  | answered => exact Option.some.inj h
  | refused fault => cases h
  | silent => cases h

/-- The store ages with every request, however it ends. -/
theorem ages_fetch (limit : Duration) (loading : String) (request : Request α) :
    Fetch.Relates (fun unsteady unsteady' => unsteady.store.Ages unsteady'.store)
      ((source limit).fetch loading request) := by
  intro unsteady
  have hafter : ((source limit).fetch loading request unsteady).2.store =
      (reply (unsteady.turns.headD {}).ending request unsteady.store).2.afterAll
        (unsteady.turns.headD {}).meanwhile := by
    unfold Source.fetch
    split <;> next hask => exact congrArg (·.2.store) hask.symm
  show unsteady.store.Ages ((source limit).fetch loading request unsteady).2.store
  rw [hafter]
  exact (ages_reply _ request unsteady.store).trans (MemoryStore.ages_afterAll _ _)

/-- What is fetched is what the store has answered. -/
theorem answer_of_fetch {loading : String} {request : Request α} {a : α}
    (h : (source limit).fetch loading request unsteady = (.ok a, unsteady')) :
    (MemoryStore.answer request unsteady.store).1 = .ok a := by
  unfold Source.fetch at h
  split at h
  · next answer state hask =>
    obtain ⟨rfl, -⟩ := Prod.mk.inj h
    have hreply := congrArg Prod.fst hask
    exact answer_of_reply hreply
  · cases h

/-! ## What a loader fetches -/

/-- The store ages with everything a loader fetches. -/
theorem respects_ages (limit : Duration) : (source limit).Respects
    fun unsteady unsteady' => unsteady.store.Ages unsteady'.store where
  refl unsteady := .refl unsteady.store
  trans _ _ _ h h' := h.trans h'
  read loading request _ := ages_fetch limit loading request

theorem ages_enrol (limit : Duration) (registry : Registry) :
    Fetch.Relates (fun unsteady unsteady' => unsteady.store.Ages unsteady'.store)
      ((source limit).enrol registry) :=
  (respects_ages limit).enrol (ages_fetch limit) registry

/-- What is fetched comes with a later state of the store. -/
theorem ages_of_run {fetch : Fetch Unsteady α} {result : Except Fault α}
    (hages : Fetch.Relates (fun unsteady unsteady' => unsteady.store.Ages unsteady'.store) fetch)
    (hrun : fetch unsteady = (result, unsteady')) : unsteady.store.Ages unsteady'.store := by
  have hafter := hages unsteady
  rwa [hrun] at hafter

/-- The row of a role that is fetched with its grants is the one the store had at first. -/
theorem role_of_fetchGrants {id : RoleId} {rows : Option Role × List Grant}
    (h : (source limit).fetchGrants id unsteady = (.ok rows, unsteady')) :
    rows.1 = unsteady.store.roles[id]? := by
  obtain ⟨role, between, hrole, h⟩ := Fetch.bind_eq_ok_iff.mp h
  obtain ⟨grants, _, -, h⟩ := Fetch.bind_eq_ok_iff.mp h
  obtain ⟨hrows, -⟩ := Prod.mk.inj h
  rw [← Except.ok.inj hrows]
  exact (Except.ok.inj (answer_of_fetch hrole)).symm

/-- The row of a role that is fetched with its values is the one the store had at first. -/
theorem role_of_fetchValues {id : RoleId} {rows : Option Role × List RoleValue}
    (h : (source limit).fetchValues id unsteady = (.ok rows, unsteady')) :
    rows.1 = unsteady.store.roles[id]? := by
  obtain ⟨role, between, hrole, h⟩ := Fetch.bind_eq_ok_iff.mp h
  obtain ⟨values, _, -, h⟩ := Fetch.bind_eq_ok_iff.mp h
  obtain ⟨hrows, -⟩ := Prod.mk.inj h
  rw [← Except.ok.inj hrows]
  exact (Except.ok.inj (answer_of_fetch hrole)).symm

/-- The roles of a job that are fetched are those the store had for it at first. -/
theorem roles_of_fetchJob {job : String} {rows : Caches.JobRows}
    (h : (source limit).fetchJob job unsteady = (.ok rows, unsteady')) :
    rows.roles = unsteady.store.listRoles (some job) := by
  obtain ⟨roles, between, hroles, h⟩ := Fetch.bind_eq_ok_iff.mp h
  obtain ⟨ceilings, _, -, h⟩ := Fetch.bind_eq_ok_iff.mp h
  obtain ⟨each, _, -, h⟩ := Fetch.bind_eq_ok_iff.mp h
  obtain ⟨hrows, -⟩ := Prod.mk.inj h
  rw [← Except.ok.inj hrows]
  exact (Except.ok.inj (answer_of_fetch hroles)).symm

/-- All roles that are fetched are those the store had at some time in between. -/
theorem roles_of_fetchAll {rows : Rows}
    (h : (source limit).fetchAll unsteady = (.ok rows, unsteady')) :
    ∃ between : MemoryStore, unsteady.store.Ages between ∧ between.Ages unsteady'.store ∧
      rows.roles = between.listRoles none := by
  have hages : ∀ {α : Type} {loading : String} {request : Request α} {answer : Except Fault α}
      {before after : Unsteady}, (source limit).fetch loading request before = (answer, after) →
      before.store.Ages after.store := fun hfetch => ages_of_run (ages_fetch limit _ _) hfetch
  obtain ⟨permissions, first, hpermissions, h⟩ := Fetch.bind_eq_ok_iff.mp h
  obtain ⟨attributes, second, hattributes, h⟩ := Fetch.bind_eq_ok_iff.mp h
  obtain ⟨roles, third, hroles, h⟩ := Fetch.bind_eq_ok_iff.mp h
  obtain ⟨grants, fourth, hgrants, h⟩ := Fetch.bind_eq_ok_iff.mp h
  obtain ⟨values, fifth, hvalues, h⟩ := Fetch.bind_eq_ok_iff.mp h
  obtain ⟨ceilings, sixth, hceilings, h⟩ := Fetch.bind_eq_ok_iff.mp h
  obtain ⟨hrows, rfl⟩ := Prod.mk.inj h
  have hbefore : unsteady.store.Ages second.store := (hages hpermissions).trans (hages hattributes)
  have hafter : second.store.Ages sixth.store :=
    (((hages hroles).trans (hages hgrants)).trans (hages hvalues)).trans (hages hceilings)
  refine ⟨second.store, hbefore, hafter, ?_⟩
  rw [← Except.ok.inj hrows]
  exact (Except.ok.inj (answer_of_fetch hroles)).symm

/-- The permissions that are fetched are those the store had at first. -/
theorem permissions_of_fetchAll {unsteady : Unsteady} {rows : Rows}
    (h : ((source limit).fetchAll unsteady).1 = .ok rows) :
    rows.permissions = unsteady.store.permissions.values := by
  obtain ⟨permissions, first, hpermissions, h⟩ := Fetch.bind_eq_ok_iff.mp (Fetch.run_eq _ _ h)
  obtain ⟨attributes, second, -, h⟩ := Fetch.bind_eq_ok_iff.mp h
  obtain ⟨roles, third, -, h⟩ := Fetch.bind_eq_ok_iff.mp h
  obtain ⟨grants, fourth, -, h⟩ := Fetch.bind_eq_ok_iff.mp h
  obtain ⟨values, fifth, -, h⟩ := Fetch.bind_eq_ok_iff.mp h
  obtain ⟨ceilings, sixth, -, h⟩ := Fetch.bind_eq_ok_iff.mp h
  obtain ⟨hrows, -⟩ := Prod.mk.inj h
  rw [← Except.ok.inj hrows]
  exact (Except.ok.inj (answer_of_fetch hpermissions)).symm

end Unsteady

end GradedAccess
