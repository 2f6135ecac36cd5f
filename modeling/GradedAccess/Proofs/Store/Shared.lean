import GradedAccess.Proofs.Reload.Program
import GradedAccess.Proofs.Store.History

/-!
# A store that others change meanwhile

An engine asks a store several times for one reload, and between two requests anyone may change
the store.  `Shared` makes that part of the state: a store in memory, and for each of the next
requests what others do right after it.  Whatever is left when a reload has ended is done then
(`settled`), so a schedule never changes which operations there are, only when they happen.

A store nobody else changes is the case of an empty schedule.
-/

namespace GradedAccess

/-- A store in memory, and what others are going to do to it. -/
structure Shared where
  store : MemoryStore
  /-- What others do after each of the next requests. -/
  pending : List (List Operation) := []

namespace MemoryStore

/-- A source that only the engine uses. -/
def source (limit : Duration) : Source MemoryStore := ⟨.immediate answer, limit⟩

theorem fetch_source {α : Type} (limit : Duration) (loading : String) (request : Request α)
    (store : MemoryStore) : (source limit).fetch loading request store = answer request store := rfl

/-- All rows are fetched as they are. -/
theorem fetchAll_source (limit : Duration) (store : MemoryStore) :
    (source limit).fetchAll store = (.ok store.rows, store) := rfl

end MemoryStore

namespace Shared

variable {α : Type}

/-- The answer to a request, after which others have their turn. -/
def answer (request : Request α) (shared : Shared) : Except Fault α × Shared :=
  let (reply, store) := MemoryStore.answer request shared.store
  (reply, ⟨store.afterAll (shared.pending.headD []), shared.pending.tail⟩)

/-- A source that is shared. -/
def source (limit : Duration) : Source Shared := ⟨.immediate answer, limit⟩

/-- The store after a request that only reads. -/
def tick (shared : Shared) : Shared :=
  ⟨shared.store.afterAll (shared.pending.headD []), shared.pending.tail⟩

/-- The store when others are done. -/
def settled (shared : Shared) : MemoryStore := shared.store.afterAll shared.pending.flatten

/-- A request that only reads brings others closer to being done, and changes nothing else. -/
theorem settled_tick (shared : Shared) : shared.tick.settled = shared.settled := by
  obtain ⟨store, pending⟩ := shared
  cases pending with
  | nil => rfl
  | cons ops pending =>
    rw [settled, settled, List.flatten_cons, MemoryStore.afterAll_append]
    rfl

theorem fetch_source (limit : Duration) (loading : String) (request : Request α)
    (shared : Shared) : (source limit).fetch loading request shared = answer request shared := rfl

theorem evolves_tick (shared : Shared) : shared.store.Evolves shared.tick.store :=
  shared.store.evolves_afterAll _

theorem evolves_settled (shared : Shared) : shared.store.Evolves shared.settled :=
  shared.store.evolves_afterAll _

/-! ## Programs over a shared store -/

/-- Whether a program leaves a later state of the store it was started with. -/
def Follows (program : Fetch Shared α) : Prop :=
  Fetch.Relates (fun shared shared' => shared.store.Evolves shared'.store) program

theorem Follows.fetch (limit : Duration) (loading : String) (request : Request α) :
    Follows ((source limit).fetch loading request) := by
  intro shared
  exact (MemoryStore.evolves_answer request shared.store).trans (MemoryStore.evolves_afterAll _ _)

/-- Everything a loader asks of a store leaves a later state of the store. -/
theorem respects_evolves (limit : Duration) :
    (source limit).Respects fun shared shared' => shared.store.Evolves shared'.store where
  refl shared := .refl shared.store
  trans _ _ _ h h' := h.trans h'
  read loading request _ := Follows.fetch limit loading request

theorem follows_enrol (limit : Duration) (registry : Registry) :
    Follows ((source limit).enrol registry) :=
  (respects_evolves limit).enrol (Follows.fetch limit) registry

/-- Everything a loader fetches leaves the rest to others: what the store is like when they are done
does not depend on it. -/
theorem respects_settled (limit : Duration) :
    (source limit).Respects fun shared shared' => shared'.settled = shared.settled where
  refl _ := rfl
  trans _ _ _ h h' := h'.trans h
  read loading request hreads shared := by
    have hsame : (MemoryStore.answer request shared.store).2 = shared.store := by
      cases request <;> first | rfl | exact hreads.elim
    have hafter : ((source limit).fetch loading request shared).2 = shared.tick := by
      rw [tick, ← hsame, fetch_source]
      rfl
    rw [hafter]
    exact settled_tick shared

end Shared

end GradedAccess
