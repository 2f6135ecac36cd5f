import GradedAccess.Proofs.Engine.Run

/-!
# Repeated answers while the caches stay as they are

As long as nothing is loaded, an engine answers from one and the same state of the caches, and it
is fair to ask whether remembering decisions can be noticed at all.  It can, in one way.  Decisions
are remembered per user and permission, while what is allowed depends on a job and a grade.  A user
who has asked as a member of one job and then asks as a member of another gets the first answer
again, until it ends or is forgotten.

`can_repeats_caches` says that this is the only way.  Every answer is what the caches say to the
identity of the check or to that of an earlier check by the same user, whose decision has neither
ended nor been forgotten; so a user who asks for a permission with one job and one grade only is
always told what the caches say.  Superusers and questions about unknown guards always are, and so
is everybody when nothing is remembered.
-/

namespace GradedAccess

namespace Engine

variable {steps : List Step}

/-- A run without a load leaves the caches as they are. -/
theorem caches_after_of_no_load {engine : Engine} (hload : ∀ caches, .load caches ∉ steps) :
    (engine.after steps).caches = engine.caches := by
  induction steps using List.reverseRecOn with
  | nil => rfl
  | append_singleton steps last ih =>
    have hbefore : ∀ caches, .load caches ∉ steps := fun caches hmem =>
      hload caches (List.mem_append_left _ hmem)
    rw [after_concat, ← ih hbefore]
    cases last with
    | check => exact caches_can
    | clear => rfl
    | sweep => rfl
    | load caches =>
      exact absurd (List.mem_append_right _ (List.mem_singleton_self _)) (hload caches)

/-- Whether a check at an instant may get the answer that an earlier check by `source` got: by the
same user for the same permission, remembered since and not ended. -/
def MayRepeat (caches : Caches) (lifetime : Duration) (steps : List Step) (now : Instant)
    (identity : Identity) (category name : String) (source : Identity) : Prop :=
  identity.superuser = false ∧ source.superuser = false ∧ source.user = identity.user ∧
    lifetime ≠ 0 ∧ ∃ permission earlier now' category' name' later,
      steps = earlier ++ .check now' source category' name' :: later ∧ .clear ∉ later ∧
      caches.permissionId category' name' = some permission ∧
      caches.permissionId category name = some permission ∧
      now < Decisions.expiry lifetime now'

/-- **Repeated answers.**  In a run without a load that starts with no decisions, a check is
answered by what the caches say to its own identity, or to that of an earlier check by the same
user for the same permission whose decision is still remembered.  If every such check was made with
the same job and grade, it is answered by what the caches say to its own identity; likewise for
superusers, for unknown guards and when nothing is remembered. -/
theorem can_repeats_caches (caches : Caches) (lifetime : Duration)
    (hload : ∀ caches, .load caches ∉ steps) (now : Instant) (identity : Identity)
    (category name : String) :
    let engine : Engine := ⟨caches, { lifetime }⟩
    let answer := ((engine.after steps).can now identity category name).1
    let mayRepeat := MayRepeat caches lifetime steps now identity category name
    (∃ source, (source = identity ∨ mayRepeat source) ∧
      answer = caches.can source category name) ∧
    ((∀ source, mayRepeat source → source.job = identity.job ∧ source.grade = identity.grade) →
      answer = caches.can identity category name) ∧
    (identity.superuser = true ∨ caches.permissionId category name = none ∨ lifetime = 0 →
      answer = caches.can identity category name) := by
  intro engine answer mayRepeat
  have hkept : ∀ steps' : List Step, (∀ caches, .load caches ∉ steps') →
      (engine.after steps').caches = caches := fun _ => caches_after_of_no_load
  have hsource : ∃ source, (source = identity ∨ mayRepeat source) ∧
      answer = caches.can source category name := by
    have hcases := @can_eq_caches_or_entry (engine.after steps) now identity category name
    rcases hcases with hown | hentry
    · exact ⟨identity, Or.inl rfl, by rw [← hkept steps hload]; exact hown⟩
    · obtain ⟨hs, permission, entry, hp, hentry, hlive, hanswer⟩ := hentry
      obtain ⟨earlier, now', source, category', name', later, rfl, hclear, hs', hu, hp', hlife,
        rfl⟩ := entry_made_by rfl steps hentry
      have hcaches : (engine.after earlier).caches = caches := hkept earlier fun loaded hmem =>
        hload loaded (List.mem_append_left _ hmem)
      rw [hcaches] at hp' hanswer
      rw [hkept _ hload] at hp
      refine ⟨source, Or.inr ⟨hs, hs', hu, hlife, permission, earlier, now', category', name',
        later, rfl, hclear, hp', hp, hlive⟩, ?_⟩
      rw [show answer = _ from hanswer]
      simp [Caches.can, hs', hp]
  refine ⟨hsource, ?_, ?_⟩
  · intro hsame
    obtain ⟨source, rfl | hrepeat, hanswer⟩ := hsource
    · exact hanswer
    · obtain ⟨hjob, hgrade⟩ := hsame source hrepeat
      rw [hanswer]
      simp [Caches.can, hrepeat.1, hrepeat.2.1, hjob, hgrade]
  · intro hown
    obtain ⟨source, rfl | hrepeat, hanswer⟩ := hsource
    · exact hanswer
    · obtain ⟨hs, -, -, hlife, permission, -, -, -, -, -, -, -, -, hp, -⟩ := hrepeat
      rcases hown with hsuper | hunknown | hzero
      · rw [hs] at hsuper
        cases hsuper
      · rw [hp] at hunknown
        cases hunknown
      · exact absurd hzero hlife

/-- Caches in which one role, the fifth grade of the police, is granted one permission. -/
def policeCaches : Caches where
  catalog := { guards := (∅ : Std.ExtTreeMap String PermissionId).insert "citizens-list" ⟨1⟩ }
  roles := { slots := (∅ : PairTable String Grade RoleId).insert ("police", 5) ⟨2⟩ }
  grants := (∅ : PairTable RoleId PermissionId Bool).insert (⟨2⟩, ⟨1⟩) true

/-- A user who has asked as a member of the fifth grade and then asks as one of the first is told
what holds for the fifth. -/
theorem can_not_transparent :
    let officer : Identity := { user := 1, job := "police", grade := 5 }
    let recruit : Identity := { user := 1, job := "police", grade := 1 }
    let engine : Engine := ⟨policeCaches, { lifetime := Duration.ofSeconds 300 }⟩
    let steps := [Step.check 0 officer "citizens" "List"]
    ((engine.after steps).can 0 recruit "citizens" "List").1 = true ∧
      policeCaches.can recruit "citizens" "List" = false := by
  decide +kernel

/-- The two checks of the same user, with two grades. -/
theorem recruit_is_answered_as_officer :
    let officer : Identity := { user := 1, job := "police", grade := 5 }
    let recruit : Identity := { user := 1, job := "police", grade := 1 }
    let engine : Engine := ⟨policeCaches, { lifetime := Duration.ofSeconds 300 }⟩
    let steps := [Step.check 0 officer "citizens" "List"]
    (∀ caches, .load caches ∉ steps) ∧
      ∃ source, (source = recruit ∨
        MayRepeat policeCaches (Duration.ofSeconds 300) steps 0 recruit "citizens" "List" source) ∧
        ((engine.after steps).can 0 recruit "citizens" "List").1 =
          policeCaches.can source "citizens" "List" := by
  intro officer recruit engine steps
  have hload : ∀ caches, .load caches ∉ steps := by
    intro caches hmem
    cases List.mem_singleton.mp hmem
  exact ⟨hload, (can_repeats_caches policeCaches (Duration.ofSeconds 300) hload 0 recruit
    "citizens" "List").1⟩

end Engine

end GradedAccess
