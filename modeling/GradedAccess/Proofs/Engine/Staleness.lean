import GradedAccess.Proofs.Engine.Repetition

/-!
# How old an answer may be

Loads change the caches and leave the remembered decisions alone.  So a check may be answered by
what the caches said some time ago.  The clock never goes back in a run (`Chronological`), and then
that time is less than one lifetime: an answer that the present caches do not give was found out
less than a lifetime before, by a check for the same user and permission, and nothing was forgotten
since (`RecentDecision`).

The end of the clock needs no exception.  If the lifetime of a decision reaches beyond it, the
decision ends at the instant it is made, and no check of a later instant repeats it.  So with such
a lifetime, as with a lifetime of zero, all answers come from the present caches.  That is where
the order of the instants matters: by a clock that goes back, the decision would not have ended yet.
-/

namespace GradedAccess

/-- A decision that has not ended is younger than its lifetime, and its lifetime is over before the
clock ends. -/
theorem Decisions.age_lt_of_lt_expiry {lifetime : Duration} {now now' : Instant}
    (hclock : now' ≤ now) (hlive : now < expiry lifetime now') :
    now - now' < lifetime ∧ now' + lifetime < clockEnd := by
  unfold expiry at hlive
  split at hlive
  · next hend => exact ⟨Nat.sub_lt_left_of_lt_add hclock hlive, hend⟩
  · exact absurd hlive (Nat.not_lt.mpr hclock)

namespace Engine

variable {engine : Engine} {steps : List Step} {now : Instant} {identity : Identity}
variable {category name : String}

/-! ## Loads and sweepers as steps -/

/-- Whatever a load does and however it ends, it is a step of a run. -/
theorem load_eq_step {σ α : Type} (load : Load σ α) (engine : Engine) (store : σ) :
    (engine.load load store).2.1 = engine.step (.load (load ⟨engine.caches, store⟩).2.caches) :=
  rfl

/-- A sweeper makes a run of sweeps. -/
theorem sweep_eq_after (engine : Engine) (clock : Instant → Instant) (interval run : Duration) :
    engine.sweep clock interval run =
      engine.after ((sweeps interval run).map fun instant => .sweep (clock instant)) := by
  unfold sweep
  induction sweeps interval run generalizing engine with
  | nil => rfl
  | cons instant instants ih => exact ih (engine.step (.sweep (clock instant)))

/-- A new engine starts its run with no decisions. -/
theorem eq_of_bootstrap {σ : Type} {source : Source σ} {registry : Registry}
    {lifetime : Duration} {store store' : σ}
    (h : bootstrap source registry lifetime store = (.ok engine, store')) :
    engine = ⟨engine.caches, { lifetime }⟩ := by
  unfold bootstrap at h
  split at h
  · cases h
  · split at h
    · cases h
    · next hload =>
      cases h
      rw [load, Prod.mk.injEq, Prod.mk.injEq] at hload
      rw [← hload.2.1]
      rfl

/-! ## The clock of a run -/

/-- The instant a step reads from the clock. -/
def Step.instant? : Step → Option Instant
  | .check now .. | .sweep now => some now
  | .clear | .load _ => none

/-- Whether the clock never goes back in a run. -/
def Chronological (steps : List Step) : Prop :=
  (steps.filterMap Step.instant?).Pairwise (· ≤ ·)

instance (steps : List Step) : Decidable (Chronological steps) :=
  inferInstanceAs (Decidable (List.Pairwise _ _))

/-- A check of a run is not later than a check that follows. -/
theorem Chronological.le_of_mem {now' : Instant} {identity' : Identity}
    {category' name' : String}
    (h : Chronological (steps ++ [.check now identity category name]))
    (hmem : .check now' identity' category' name' ∈ steps) : now' ≤ now := by
  rw [Chronological, List.filterMap_append, List.pairwise_append] at h
  exact h.2.2 now' (List.mem_filterMap.mpr ⟨_, hmem, rfl⟩) now (List.mem_singleton_self now)

/-! ## Stale answers -/

/-- Whether a check of a run, less than one lifetime ago, found out an answer for a user and a
permission from the caches of its own moment, and nothing was forgotten since. -/
def RecentDecision (engine : Engine) (steps : List Step) (now : Instant) (user : UInt64)
    (permission : PermissionId) (answer : Bool) : Prop :=
  ∃ earlier now' source category' name' later,
    steps = earlier ++ .check now' source category' name' :: later ∧ .clear ∉ later ∧
    (now' ≤ now ∧ now - now' < engine.decisions.lifetime) ∧
    now' + engine.decisions.lifetime < Decisions.clockEnd ∧
    source.superuser = false ∧ source.user = user ∧
    (engine.after earlier).caches.permissionId category' name' = some permission ∧
    (engine.after earlier).caches.resolve source.job source.grade permission = answer

/-- A check is answered from the present caches or by a recent decision. -/
theorem can_eq_caches_or_recent (hempty : engine.decisions.entries = ∅)
    (hclock : Chronological (steps ++ [.check now identity category name])) :
    ((engine.after steps).can now identity category name).1 =
        (engine.after steps).caches.can identity category name ∨
      ∃ permission, (engine.after steps).caches.permissionId category name = some permission ∧
        RecentDecision engine steps now identity.user permission
          ((engine.after steps).can now identity category name).1 := by
  have hcases := @can_eq_caches_or_entry (engine.after steps) now identity category name
  rcases hcases with hown | ⟨-, permission, entry, hp, hentry, hlive, hanswer⟩
  · exact Or.inl hown
  · obtain ⟨earlier, now', source, category', name', later, rfl, hclear, hs', hu, hp', -, rfl⟩ :=
      entry_made_by hempty steps hentry
    have hle : now' ≤ now := hclock.le_of_mem (List.mem_append_right _ List.mem_cons_self)
    obtain ⟨hage, hend⟩ := Decisions.age_lt_of_lt_expiry hle hlive
    exact Or.inr ⟨permission, hp, earlier, now', source, category', name', later, rfl, hclear,
      ⟨hle, hage⟩, hend, hs', hu, hp', hanswer.symm⟩

/-- **Staleness is bounded.**  In a run that starts with no decisions, the answer to a check for a
known permission is what the present caches give, or else a recent decision for the same user and
permission.  All answers are what the present caches give if the lifetime is zero, or if it reaches
beyond the end of the clock at every check.  Checks of superusers and of unknown guards are
answered without the decisions, whichever there are, and leave them and their counts as they
were. -/
theorem answer_of_chronological (caches : Caches) (lifetime : Duration)
    (hclock : Chronological (steps ++ [.check now identity category name])) :
    let engine : Engine := ⟨caches, { lifetime }⟩
    let reached := engine.after steps
    let answer := (reached.can now identity category name).1
    (∀ permission, identity.superuser = false →
      reached.caches.permissionId category name = some permission →
      answer = reached.caches.resolve identity.job identity.grade permission ∨
        RecentDecision engine steps now identity.user permission answer) ∧
    (lifetime = 0 ∨ (∀ now' identity' category' name',
        .check now' identity' category' name' ∈ steps → Decisions.clockEnd ≤ now' + lifetime) →
      answer = reached.caches.can identity category name) ∧
    (identity.superuser = true ∨ reached.caches.permissionId category name = none →
      ∀ decisions, can ⟨reached.caches, decisions⟩ now identity category name =
        (identity.superuser, ⟨reached.caches, decisions⟩)) := by
  intro engine reached answer
  have hcases : answer = reached.caches.can identity category name ∨
      ∃ permission, reached.caches.permissionId category name = some permission ∧
        RecentDecision engine steps now identity.user permission answer :=
    can_eq_caches_or_recent rfl hclock
  refine ⟨fun permission hs hp => ?_, fun hnone => ?_, fun hskip decisions => ?_⟩
  · rcases hcases with hown | ⟨permission', hp', hrecent⟩
    · left
      simpa [Caches.can, hs, hp] using hown
    · rw [hp, Option.some.injEq] at hp'
      subst hp'
      exact Or.inr hrecent
  · rcases hcases with hown | ⟨-, -, _, now', _, _, _, _, rfl, -, ⟨-, hage⟩, hend, -⟩
    · exact hown
    · exfalso
      rcases hnone with rfl | hnone
      · exact Nat.not_lt_zero _ hage
      · have hover := hnone now' _ _ _ (List.mem_append_right _ List.mem_cons_self)
        exact absurd hend (Nat.not_lt.mpr hover)
  · have hanswer : can ⟨reached.caches, decisions⟩ now identity category name =
        (reached.caches.can identity category name, ⟨reached.caches, decisions⟩) :=
      can_of_unremembered hskip
    rw [hanswer]
    rcases hskip with hs | hp
    · simp [Caches.can, hs]
    · cases hs : identity.superuser <;> simp [Caches.can, hs, hp]

/-- A user is allowed a permission, and a moment later the grant is gone from the caches. -/
def revocation : List Step :=
  [.check 0 { user := 1, job := "police", grade := 5 } "citizens" "List",
    .sweep (Duration.ofSeconds 1), .load { policeCaches with grants := ∅ }]

/-- The user goes on being allowed the permission by the decision of the first check, up to the
instant at which its lifetime is over. -/
theorem revocation_noticed_after_lifetime :
    let officer : Identity := { user := 1, job := "police", grade := 5 }
    let engine : Engine := ⟨policeCaches, { lifetime := Duration.ofSeconds 300 }⟩
    let reached := engine.after revocation
    let late := Duration.ofSeconds 300 - 1
    Chronological (revocation ++ [.check late officer "citizens" "List"]) ∧
      reached.caches.can officer "citizens" "List" = false ∧
      (reached.can late officer "citizens" "List").1 = true ∧
      RecentDecision engine revocation late 1 ⟨1⟩ true ∧
      (reached.can (Duration.ofSeconds 300) officer "citizens" "List").1 = false := by
  intro officer engine reached late
  have hclock : Chronological (revocation ++ [.check late officer "citizens" "List"]) := by
    decide
  have hanswer : (reached.can late officer "citizens" "List").1 = true := by decide +kernel
  have hrecent := ((answer_of_chronological policeCaches (Duration.ofSeconds 300) hclock).1 ⟨1⟩ rfl
    (by decide +kernel)).resolve_left (by decide +kernel)
  refine ⟨hclock, by decide +kernel, hanswer, ?_, by decide +kernel⟩
  rw [← hanswer]
  exact hrecent

end Engine

end GradedAccess
