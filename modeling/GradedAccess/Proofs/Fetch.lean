import GradedAccess.Reload.Loader

/-!
# Running fetches and loads

A fetch is a function from a state to a result and a state, and a load is the same with the caches
in its state.  Statements about what they do are about these functions, so a `do` block has to be
taken apart into its steps.  That is the same for both, and is done here once.
-/

namespace GradedAccess

namespace Fetch

variable {τ α β : Type}

/-- After a first part that succeeds, the rest goes on from the state that part left. -/
theorem bind_of_ok {first : Fetch τ α} {next : α → Fetch τ β} {state after : τ} {a : α}
    (h : first state = (.ok a, after)) : (first >>= next) state = next a after := by
  have hrun : (first >>= next) state = ExceptT.bindCont next (first state).1 (first state).2 := rfl
  rw [hrun, h]
  rfl

/-- A first part that fails is all that happens. -/
theorem bind_of_error {first : Fetch τ α} {next : α → Fetch τ β} {state after : τ} {fault : Fault}
    (h : first state = (.error fault, after)) :
    (first >>= next) state = (.error fault, after) := by
  have hrun : (first >>= next) state = ExceptT.bindCont next (first state).1 (first state).2 := rfl
  rw [hrun, h]
  rfl

/-- A run whose result is known, as a pair. -/
theorem run_eq (program : Fetch τ α) (state : τ) {result : Except Fault α}
    (h : (program state).1 = result) : program state = (result, (program state).2) :=
  Prod.ext h rfl

/-- Two parts succeed together when each does. -/
theorem bind_eq_ok_iff {first : Fetch τ α} {next : α → Fetch τ β} {state after : τ} {b : β} :
    (first >>= next) state = (.ok b, after) ↔
      ∃ a between, first state = (.ok a, between) ∧ next a between = (.ok b, after) := by
  rcases h : first state with ⟨fault | a, between⟩
  · rw [bind_of_error h]
    constructor
    · rintro ⟨⟩
    · rintro ⟨_, _, ⟨⟩, _⟩
  · rw [bind_of_ok h]
    constructor
    · intro hnext
      exact ⟨a, between, rfl, hnext⟩
    · rintro ⟨_, _, ⟨⟩, hnext⟩
      exact hnext

/-- Whether a program relates the states before and after it, wherever it is run. -/
def Relates (R : τ → τ → Prop) (program : Fetch τ α) : Prop :=
  ∀ state, R state (program state).2

/-- If a relation can be chained, two parts relate the states before and after both.  The second
part may not be reached. -/
theorem Relates.bind {R : τ → τ → Prop} (htrans : ∀ ⦃a b c : τ⦄, R a b → R b c → R a c)
    {first : Fetch τ α} {next : α → Fetch τ β} (hfirst : Relates R first)
    (hnext : ∀ a, Relates R (next a)) : Relates R (first >>= next) := by
  intro state
  have hbefore := hfirst state
  rcases hrun : first state with ⟨fault | a, between⟩
  · rw [bind_of_error hrun]
    rwa [hrun] at hbefore
  · rw [bind_of_ok hrun]
    rw [hrun] at hbefore
    exact htrans hbefore (hnext a between)

end Fetch

end GradedAccess
