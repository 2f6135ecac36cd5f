import GradedAccess.Engine
import Mathlib.Data.List.Induction

/-!
# Runs of an engine

What can happen to an engine between two checks is another check, a sweep of the ended decisions,
a call that forgets all decisions, and a load that leaves other caches.  A run is a list of these
steps, at whatever instants the clock shows.

`entry_made_by` says where a remembered decision comes from.  In a run from an engine that
remembers nothing, every entry was made by a check of that run: by one for the same user and
permission, after which nothing was forgotten.  The entry holds what that check found out from the
caches of its own moment, and ends one lifetime after it.  That is the invariant of the decisions,
and everything about stale or repeated answers follows from it.
-/

namespace GradedAccess

open Std (ExtTreeMap LawfulEqOrd)

namespace Decisions

variable {decisions : Decisions} {now : Instant} {user : UInt64} {permission : PermissionId}
variable {key : UInt64 × PermissionId} {entry : Decision} {allowed : Bool}

/-! ## What the operations do to an entry -/

/-- A lookup finds the entry of its key as long as that has not ended. -/
theorem get_eq_some_iff :
    (decisions.get now user permission).1 = some allowed ↔
      ∃ entry, decisions.entries[(user, permission)]? = some entry ∧ now < entry.expires ∧
        entry.allowed = allowed := by
  unfold get
  split
  · next h => simp [h]
  · next entry h => by_cases hlive : now < entry.expires <;> simp [h, hlive]

/-- A lookup makes no entries. -/
theorem entry_of_get (h : (decisions.get now user permission).2.entries[key]? = some entry) :
    decisions.entries[key]? = some entry := by
  unfold get at h
  split at h
  · exact h
  · split at h
    · exact h
    · rw [ExtTreeMap.getElem?_erase] at h
      split at h
      · cases h
      · exact h

@[simp] theorem lifetime_get : (decisions.get now user permission).2.lifetime =
    decisions.lifetime := by
  unfold get
  split
  · rfl
  · split <;> rfl

/-- An insertion makes one entry, unless nothing is remembered at all. -/
theorem entry_of_insert
    (h : (decisions.insert now user permission allowed).entries[key]? = some entry) :
    decisions.entries[key]? = some entry ∨
      decisions.lifetime ≠ 0 ∧ key = (user, permission) ∧
        entry = ⟨allowed, expiry decisions.lifetime now⟩ := by
  unfold insert at h
  split at h
  · exact Or.inl h
  · next hlife =>
    simp only [ExtTreeMap.getElem?_insert, LawfulEqOrd.compare_eq_iff_eq] at h
    split at h
    · next hkey => exact Or.inr ⟨hlife, hkey.symm, (Option.some.inj h).symm⟩
    · exact Or.inl h

@[simp] theorem lifetime_insert : (decisions.insert now user permission allowed).lifetime =
    decisions.lifetime := by
  unfold insert
  split <;> rfl

/-- A sweep makes no entries. -/
theorem entry_of_purge (h : (decisions.purge now).2.entries[key]? = some entry) :
    decisions.entries[key]? = some entry := by
  simp only [purge, ExtTreeMap.getElem?_filter'] at h
  exact (Option.filter_eq_some_iff.mp h).1

end Decisions

/-! ## Steps and runs -/

namespace Engine

/-- Something that happens to an engine. -/
inductive Step where
  /-- A check at an instant. -/
  | check (now : Instant) (identity : Identity) (category name : String)
  /-- All decisions are forgotten. -/
  | clear
  /-- The decisions that have ended at an instant are dropped. -/
  | sweep (now : Instant)
  /-- A load, a reload or an enrolment is over and has left these caches. -/
  | load (caches : Caches)

/-- The engine after a step. -/
def step (engine : Engine) : Step → Engine
  | .check now identity category name => (engine.can now identity category name).2
  | .clear => { engine with decisions := engine.decisions.clear }
  | .sweep now => { engine with decisions := (engine.decisions.purge now).2 }
  | .load caches => { engine with caches }

/-- The engine after a run. -/
def after (engine : Engine) (steps : List Step) : Engine := steps.foldl step engine

variable {engine : Engine} {now : Instant} {identity : Identity} {category name : String}
variable {user : UInt64} {permission : PermissionId} {entry : Decision}

@[simp] theorem after_nil : engine.after [] = engine := rfl

@[simp] theorem after_concat (steps : List Step) (last : Step) :
    engine.after (steps ++ [last]) = (engine.after steps).step last := by
  rw [after, List.foldl_append]
  rfl

/-! ## One check -/

/-- A check for which nothing can be remembered: of a superuser, or of an unknown guard. -/
theorem can_of_unremembered
    (h : identity.superuser = true ∨ engine.caches.permissionId category name = none) :
    engine.can now identity category name =
      (engine.caches.can identity category name, engine) := by
  rcases h with h | h
  · simp [can, Caches.can, h]
  · cases hs : identity.superuser <;> simp [can, Caches.can, h, hs]

/-- A check that finds a decision repeats it. -/
theorem can_of_hit {decisions : Decisions} {allowed : Bool} (hs : identity.superuser = false)
    (hp : engine.caches.permissionId category name = some permission)
    (hget : engine.decisions.get now identity.user permission = (some allowed, decisions)) :
    engine.can now identity category name = (allowed, { engine with decisions }) := by
  simp [can, hs, hp, hget]

/-- A check that finds no decision makes one. -/
theorem can_of_miss {decisions : Decisions} (hs : identity.superuser = false)
    (hp : engine.caches.permissionId category name = some permission)
    (hget : engine.decisions.get now identity.user permission = (none, decisions)) :
    engine.can now identity category name =
      (engine.caches.resolve identity.job identity.grade permission, { engine with
        decisions := decisions.insert now identity.user permission
          (engine.caches.resolve identity.job identity.grade permission) }) := by
  simp [can, hs, hp, hget]

/-- Either nothing can be remembered for a check, or a decision is looked for. -/
theorem unremembered_or_known (engine : Engine) (identity : Identity) (category name : String) :
    (identity.superuser = true ∨ engine.caches.permissionId category name = none) ∨
      identity.superuser = false ∧
        ∃ permission, engine.caches.permissionId category name = some permission := by
  cases identity.superuser with
  | true => exact Or.inl (Or.inl rfl)
  | false =>
    cases engine.caches.permissionId category name with
    | none => exact Or.inl (Or.inr rfl)
    | some permission => exact Or.inr ⟨rfl, permission, rfl⟩

/-- A check does not touch the caches. -/
@[simp] theorem caches_can : (engine.can now identity category name).2.caches = engine.caches := by
  unfold can
  split
  · rfl
  · split
    · rfl
    · split <;> rfl

/-- A check does not change how long decisions are remembered. -/
@[simp] theorem lifetime_can : (engine.can now identity category name).2.decisions.lifetime =
    engine.decisions.lifetime := by
  rcases engine.unremembered_or_known identity category name with h | ⟨hs, permission, hp⟩
  · rw [can_of_unremembered h]
  · have hlife : (engine.decisions.get now identity.user permission).2.lifetime =
        engine.decisions.lifetime := Decisions.lifetime_get
    rcases hget : engine.decisions.get now identity.user permission with ⟨_ | allowed, decisions⟩
    · rw [can_of_miss hs hp hget]
      rw [hget] at hlife
      exact Decisions.lifetime_insert.trans hlife
    · rw [can_of_hit hs hp hget]
      rwa [hget] at hlife

/-- A check answers from a live entry of its own user and permission, or else from the caches. -/
theorem can_eq_caches_or_entry :
    (engine.can now identity category name).1 = engine.caches.can identity category name ∨
      identity.superuser = false ∧ ∃ permission entry,
        engine.caches.permissionId category name = some permission ∧
        engine.decisions.entries[(identity.user, permission)]? = some entry ∧
        now < entry.expires ∧ (engine.can now identity category name).1 = entry.allowed := by
  rcases engine.unremembered_or_known identity category name with h | ⟨hs, permission, hp⟩
  · exact Or.inl (by rw [can_of_unremembered h])
  · rcases hget : engine.decisions.get now identity.user permission with ⟨_ | allowed, decisions⟩
    · left
      rw [can_of_miss hs hp hget]
      simp [Caches.can, hs, hp]
    · right
      have hfound : (engine.decisions.get now identity.user permission).1 = some allowed := by
        rw [hget]
      obtain ⟨entry, hentry, hlive, hallowed⟩ := Decisions.get_eq_some_iff.mp hfound
      rw [can_of_hit hs hp hget]
      exact ⟨hs, permission, entry, hp, hentry, hlive, hallowed.symm⟩

/-- A check makes at most one entry, out of what it finds in the caches. -/
theorem entry_of_can
    (h : (engine.can now identity category name).2.decisions.entries[(user, permission)]? =
      some entry) :
    engine.decisions.entries[(user, permission)]? = some entry ∨
      identity.superuser = false ∧ identity.user = user ∧
        engine.caches.permissionId category name = some permission ∧
        engine.decisions.lifetime ≠ 0 ∧
        entry = ⟨engine.caches.resolve identity.job identity.grade permission,
          Decisions.expiry engine.decisions.lifetime now⟩ := by
  rcases engine.unremembered_or_known identity category name with hskip | ⟨hs, asked, hp⟩
  · rw [can_of_unremembered hskip] at h
    exact Or.inl h
  · have hkept : (engine.decisions.get now identity.user asked).2.entries[(user, permission)]? =
        some entry → engine.decisions.entries[(user, permission)]? = some entry :=
      Decisions.entry_of_get
    have hlife : (engine.decisions.get now identity.user asked).2.lifetime =
        engine.decisions.lifetime := Decisions.lifetime_get
    rcases hget : engine.decisions.get now identity.user asked with ⟨_ | allowed, decisions⟩
    · rw [can_of_miss hs hp hget] at h
      rw [hget] at hkept hlife
      rcases Decisions.entry_of_insert h with h | ⟨hne, hkey, hentry⟩
      · exact Or.inl (hkept h)
      · obtain ⟨rfl, rfl⟩ := Prod.mk.inj hkey
        rw [hlife] at hne hentry
        exact Or.inr ⟨hs, rfl, hp, hne, hentry⟩
    · rw [can_of_hit hs hp hget] at h
      rw [hget] at hkept
      exact Or.inl (hkept h)

/-! ## Where entries come from -/

/-- A step of a run that made an entry for a user and a permission: a check, after which nothing
was forgotten. -/
def MadeBy (engine : Engine) (steps : List Step) (user : UInt64) (permission : PermissionId)
    (entry : Decision) : Prop :=
  ∃ earlier now identity category name later,
    steps = earlier ++ .check now identity category name :: later ∧ .clear ∉ later ∧
    identity.superuser = false ∧ identity.user = user ∧
    (engine.after earlier).caches.permissionId category name = some permission ∧
    engine.decisions.lifetime ≠ 0 ∧
    entry = ⟨(engine.after earlier).caches.resolve identity.job identity.grade permission,
      Decisions.expiry engine.decisions.lifetime now⟩

/-- What made an entry is still what made it after a step that forgets nothing. -/
theorem MadeBy.concat {steps : List Step} {last : Step}
    (h : MadeBy engine steps user permission entry) (hlast : .clear ≠ last) :
    MadeBy engine (steps ++ [last]) user permission entry := by
  obtain ⟨earlier, now, identity, category, name, later, rfl, hclear, hrest⟩ := h
  refine ⟨earlier, now, identity, category, name, later ++ [last], ?_, ?_, hrest⟩
  · rw [List.append_assoc, List.cons_append]
  · rw [List.mem_append, List.mem_singleton]
    exact fun hmem => hmem.elim hclear hlast

/-- A run does not change how long decisions are remembered. -/
@[simp] theorem lifetime_after (steps : List Step) :
    (engine.after steps).decisions.lifetime = engine.decisions.lifetime := by
  induction steps using List.reverseRecOn with
  | nil => rfl
  | append_singleton steps last ih =>
    rw [after_concat, ← ih]
    cases last with
    | check => exact lifetime_can
    | clear => rfl
    | sweep => rfl
    | load => rfl

/-- **Where entries come from.**  In a run from an engine that remembers nothing, a check of the
run made every entry. -/
theorem entry_made_by (hempty : engine.decisions.entries = ∅) (steps : List Step)
    (h : (engine.after steps).decisions.entries[(user, permission)]? = some entry) :
    MadeBy engine steps user permission entry := by
  -- the steps are added at the end, since an entry that is made later is made from later caches
  induction steps using List.reverseRecOn with
  | nil =>
    rw [after_nil, hempty] at h
    simp at h
  | append_singleton steps last ih =>
    rw [after_concat] at h
    cases last with
    | check now identity category name =>
      rcases entry_of_can h with h | ⟨hs, hu, hp, hlife, hentry⟩
      · exact (ih h).concat nofun
      · rw [lifetime_after] at hlife hentry
        exact ⟨steps, now, identity, category, name, [], rfl, List.not_mem_nil, hs, hu, hp,
          hlife, hentry⟩
    | clear => simp [step, Decisions.clear] at h
    | sweep now => exact (ih (Decisions.entry_of_purge h)).concat nofun
    | load caches => exact (ih h).concat nofun

end Engine

end GradedAccess
