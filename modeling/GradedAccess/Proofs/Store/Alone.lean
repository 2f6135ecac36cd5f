import GradedAccess.Proofs.Store.Shared

/-!
# A store nobody else changes

A store in memory is a shared one with an empty schedule.  What a loader does to the one it does to
the other, so what is known of shared stores is known of plain ones.

This holds for whole programs because it holds for single requests (`Source.Embeds`).
-/

namespace GradedAccess

variable {σ τ α β : Type} {embed : σ → τ}

/-- Whether a program does to embedded states what another does to the states themselves. -/
def Fetch.Lifts (embed : σ → τ) (program : Fetch σ α) (lifted : Fetch τ α) : Prop :=
  ∀ state, lifted (embed state) = ((program state).1, embed (program state).2)

namespace Fetch.Lifts

theorem pure (embed : σ → τ) (a : α) : Lifts embed (pure a : Fetch σ α) (pure a) := fun _ => rfl

theorem bind {first : Fetch σ α} {first' : Fetch τ α} {next : α → Fetch σ β}
    {next' : α → Fetch τ β} (hfirst : Lifts embed first first')
    (hnext : ∀ a, Lifts embed (next a) (next' a)) :
    Lifts embed (first >>= next) (first' >>= next') := by
  intro state
  have hlifted := hfirst state
  rcases hrun : first state with ⟨fault | a, between⟩
  · rw [hrun] at hlifted
    rw [bind_of_error hrun, bind_of_error hlifted]
  · rw [hrun] at hlifted
    rw [bind_of_ok hrun, bind_of_ok hlifted, hnext]

end Fetch.Lifts

/-- Embeds a store, and leaves the caches beside it alone. -/
def Loaded.mapStore (embed : σ → τ) (loaded : Loaded σ) : Loaded τ :=
  ⟨loaded.caches, embed loaded.store⟩

/-- A reload that fetches and works on the caches. -/
theorem Load.lifts {fetch : Fetch σ α} {fetch' : Fetch τ α}
    (h : Fetch.Lifts embed fetch fetch') (update : α → Update Report) :
    Fetch.Lifts (Loaded.mapStore embed)
      (ofFetch fetch >>= fun rows => ofUpdate (update rows))
      (ofFetch fetch' >>= fun rows => ofUpdate (update rows)) := by
  refine .bind (fun loaded => ?_) fun rows loaded => rfl
  rw [ofFetch, Loaded.mapStore, h]
  rfl

/-- Whether one source answers as another does whose states are embedded in its own. -/
structure Source.Embeds (embed : σ → τ) (source : Source σ) (source' : Source τ) : Prop where
  fetch : ∀ {α : Type} (loading : String) (request : Request α),
    Fetch.Lifts embed (source.fetch loading request) (source'.fetch loading request)

namespace Source.Embeds

variable {source : Source σ} {source' : Source τ}

theorem fetchGrants (h : source.Embeds embed source') (id : RoleId) :
    Fetch.Lifts embed (source.fetchGrants id) (source'.fetchGrants id) :=
  .bind (h.fetch _ _) fun _ => .bind (h.fetch _ _) fun _ => .pure embed _

theorem fetchValues (h : source.Embeds embed source') (id : RoleId) :
    Fetch.Lifts embed (source.fetchValues id) (source'.fetchValues id) :=
  .bind (h.fetch _ _) fun _ => .bind (h.fetch _ _) fun _ => .pure embed _

theorem fetchEach (h : source.Embeds embed source') (roles : List Role) :
    Fetch.Lifts embed (source.fetchEach roles) (source'.fetchEach roles) := by
  induction roles with
  | nil => exact .pure embed _
  | cons role roles ih =>
    exact .bind (h.fetch _ _) fun _ => .bind (h.fetch _ _) fun _ => .bind ih fun _ =>
      .pure embed _

theorem fetchJob (h : source.Embeds embed source') (job : String) :
    Fetch.Lifts embed (source.fetchJob job) (source'.fetchJob job) :=
  .bind (h.fetch _ _) fun roles => .bind (h.fetch _ _) fun _ => .bind (h.fetchEach roles) fun _ =>
    .pure embed _

/-- An event does the same in both. -/
theorem applyEvent (h : source.Embeds embed source') (event : Event) :
    Fetch.Lifts (Loaded.mapStore embed) (source.applyEvent event) (source'.applyEvent event) := by
  cases event with
  | roleGrants role => exact Load.lifts (h.fetchGrants role) _
  | roleValues role => exact Load.lifts (h.fetchValues role) _
  | jobCeilings job => exact Load.lifts (h.fetchJob job) _

end Source.Embeds

/-- A shared store that nobody else changes. -/
def Shared.alone (store : MemoryStore) : Shared := ⟨store, []⟩

/-- A store in memory answers as it does while nobody else changes it. -/
theorem Shared.embeds_alone (limit : Duration) :
    (MemoryStore.source limit).Embeds alone (source limit) :=
  ⟨fun _ _ _ => rfl⟩

end GradedAccess
