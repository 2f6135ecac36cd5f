import GradedAccess.Proofs.Reload.Program
import GradedAccess.Store.Lists

/-!
# Fetching from a store of plain lists

A store of plain lists answers every request at once and never fails to answer one that reads.
Such a request leaves it as it is.  So all that is fetched for a reload can be read off its lists
as they are.
-/

namespace GradedAccess

/-- Whether a store is left as it is by every request that reads. -/
def Source.Steady {σ : Type} (source : Source σ) (state : σ) : Prop :=
  ∀ ⦃α : Type⦄ (request : Request α), request.Reads →
    (source.store.ask request source.limit state).2 = state

/-- Everything a loader fetches leaves a steady store as it is. -/
theorem Source.Steady.respects {σ : Type} {source : Source σ} {state : σ}
    (h : source.Steady state) :
    source.Respects fun before after => before = state → after = state where
  refl _ := id
  trans _ _ _ hfirst hnext hstate := hnext (hfirst hstate)
  read loading request hreads before hstate := by
    subst hstate
    have hkept := h request hreads
    rw [Source.fetch]
    split <;> simp_all

namespace ListStore

/-- A source that reads plain lists. -/
def source (limit : Duration) : Source ListStore := ⟨.immediate answer, limit⟩

theorem steady_source (limit : Duration) (store : ListStore) : (source limit).Steady store := by
  intro α request hreads
  cases request <;> first | rfl | exact hreads.elim

end ListStore

end GradedAccess
