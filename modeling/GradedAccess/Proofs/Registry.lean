import GradedAccess.Registry
import GradedAccess.Proofs.Attribute.Value

/-!
# What a registry holds

A registry is built one declaration at a time, and whatever does not go with what is there already
is refused.  So what has been declared can live side by side: every guard is there once, and every
declaration is sound in itself.  `Built` is how a registry comes about and `Sound` is what follows
from it, and nobody who reasons about what is declared has to look at `register` again.
-/

namespace GradedAccess

open Std (ExtTreeSet)

/-- The valid values an attribute is to have: those that are declared, or none. -/
def AttributeDefinition.values (declared : AttributeDefinition) : AttributeValue :=
  AttributeValue.orEmpty declared.kind declared.valid

namespace Definition

/-- Whether a declaration is sound in itself. -/
structure Sound (definition : Definition) : Prop where
  guarded : definition.guard.isEmpty = false
  /-- Valid values are of the kind that is declared with them. -/
  valid_kind : ∀ declared ∈ definition.attributes, ∀ valid, declared.valid = some valid →
    valid.kind = declared.kind
  /-- Two attributes do not share a key. -/
  key_once : definition.attributes.Pairwise (·.key ≠ ·.key)

/-- The attributes of a declaration are accepted if the valid values of each are of its kind and no
key is there twice, counting the earlier ones. -/
theorem checkAttributes_eq_ok_iff {guard : String} {earlier : List String}
    {attrs : List AttributeDefinition} :
    checkAttributes guard earlier attrs = .ok () ↔
      (∀ declared ∈ attrs, ∀ valid, declared.valid = some valid → valid.kind = declared.kind) ∧
        (∀ declared ∈ attrs, declared.key ∉ earlier) ∧ attrs.Pairwise (·.key ≠ ·.key) := by
  induction attrs generalizing earlier with
  | nil => simp [checkAttributes]
  | cons attr attrs ih =>
    rw [checkAttributes]
    split
    · next valid hfilter =>
      obtain ⟨hvalid, hkind⟩ := Option.filter_eq_some_iff.mp hfilter
      refine ⟨nofun, fun ⟨hkinds, _⟩ => ?_⟩
      have hsame := hkinds attr List.mem_cons_self valid hvalid
      simp [hsame] at hkind
    · next hfilter =>
      have hown : ∀ valid, attr.valid = some valid → valid.kind = attr.kind := by
        intro valid hvalid
        simpa [hvalid, Option.filter] using hfilter
      split
      · next hmem =>
        exact ⟨nofun, fun ⟨_, hkeys, _⟩ => absurd hmem (hkeys attr List.mem_cons_self)⟩
      · next hmem =>
        rw [ih, List.forall_mem_cons, List.forall_mem_cons, List.pairwise_cons]
        simp only [List.mem_cons, not_or]
        constructor
        · rintro ⟨hkinds, hkeys, honce⟩
          exact ⟨⟨hown, hkinds⟩, ⟨hmem, fun a ha => (hkeys a ha).2⟩,
            fun a ha heq => (hkeys a ha).1 heq.symm, honce⟩
        · rintro ⟨⟨-, hkinds⟩, ⟨-, hkeys⟩, hne, honce⟩
          exact ⟨hkinds, fun a ha => ⟨fun heq => hne a ha heq.symm, hkeys a ha⟩, honce⟩

/-- Checking a declaration accepts the sound ones. -/
theorem check_eq_ok_iff {definition : Definition} :
    definition.check = .ok () ↔ definition.Sound := by
  rw [check]
  split
  · next hempty => exact ⟨nofun, fun h => by simp [h.guarded] at hempty⟩
  · next hguard =>
    rw [checkAttributes_eq_ok_iff]
    constructor
    · rintro ⟨hkinds, -, honce⟩
      exact ⟨by simpa using hguard, hkinds, honce⟩
    · intro h
      exact ⟨h.valid_kind, fun _ _ => by simp, h.key_once⟩

end Definition

namespace Registry

variable {registry registry' : Registry} {definition : Definition} {guard : String} {fault : Fault}

/-- Whether a registry has come about by declaring one permission after another. -/
inductive Built : Registry → Prop where
  | empty : Built {}
  | register {registry registry' : Registry} {definition : Definition} (h : Built registry)
      (hregister : registry.register definition = .ok registry') : Built registry'

/-- What can be said of the declarations of a registry. -/
structure Sound (registry : Registry) : Prop where
  definition : ∀ definition ∈ registry.definitions, definition.Sound
  /-- Two declared permissions do not share a guard. -/
  guard_once : registry.definitions.Pairwise (·.guard ≠ ·.guard)
  /-- The guards that are taken are those of the declarations. -/
  contains_iff : ∀ guard, registry.contains guard = true ↔
    ∃ definition ∈ registry.definitions, definition.guard = guard

/-! ## One declaration -/

theorem declare_of_unsound (h : definition.check = .error fault) :
    declare definition registry = (.error fault, registry) := by
  rw [declare, h]

/-- A guard that is taken is recorded once more, which is no change. -/
theorem declare_of_taken (h : definition.check = .ok ())
    (htaken : registry.contains definition.guard = true) :
    declare definition registry = (.error (.declaredTwice definition.guard), registry) := by
  have hinsert : registry.guards.insert definition.guard = registry.guards := by
    refine ExtTreeSet.ext_mem fun guard => ?_
    rw [ExtTreeSet.mem_insert, Std.LawfulEqOrd.compare_eq_iff_eq, or_iff_right_iff_imp]
    rintro rfl
    exact ExtTreeSet.contains_iff_mem.mp htaken
  simp only [declare, h, htaken, if_true, hinsert]

theorem declare_of_free (h : definition.check = .ok ())
    (hfree : registry.contains definition.guard = false) :
    declare definition registry = (.ok (),
      ⟨registry.definitions ++ [definition], registry.guards.insert definition.guard⟩) := by
  simp only [declare, h, hfree, if_neg Bool.false_ne_true]

/-- A declaration is refused and nothing changes, or it is accepted as the last one, which is for a
sound one whose guard is free. -/
theorem declare_cases (definition : Definition) (registry : Registry) :
    (∃ fault, declare definition registry = (.error fault, registry) ∧
        (definition.Sound → registry.contains definition.guard = true)) ∨
      definition.Sound ∧ registry.contains definition.guard = false ∧
        declare definition registry = (.ok (),
          ⟨registry.definitions ++ [definition], registry.guards.insert definition.guard⟩) := by
  cases hcheck : definition.check with
  | error fault =>
    refine Or.inl ⟨fault, declare_of_unsound hcheck, fun hsound => ?_⟩
    rw [Definition.check_eq_ok_iff.mpr hsound] at hcheck
    cases hcheck
  | ok =>
    cases htaken : registry.contains definition.guard with
    | true => exact Or.inl ⟨_, declare_of_taken hcheck htaken, fun _ => rfl⟩
    | false =>
      exact Or.inr ⟨Definition.check_eq_ok_iff.mp hcheck, rfl, declare_of_free hcheck htaken⟩

theorem register_eq_of_declare {result : Except Fault Unit}
    (h : declare definition registry = (result, registry')) :
    registry.register definition = result.map fun _ => registry' := by
  rw [register, h]
  cases result <;> rfl

/-- A declaration is accepted if it is sound and its guard is not there yet, and then it is the
last one. -/
theorem register_eq_ok_iff :
    registry.register definition = .ok registry' ↔
      definition.Sound ∧ registry.contains definition.guard = false ∧
        registry' = ⟨registry.definitions ++ [definition],
          registry.guards.insert definition.guard⟩ := by
  rcases declare_cases definition registry with ⟨fault, hdeclare, hnew⟩ | ⟨hsound, hfree, hdeclare⟩
  · rw [register_eq_of_declare hdeclare]
    refine ⟨nofun, fun ⟨hsound, hfree, _⟩ => ?_⟩
    rw [hnew hsound] at hfree
    cases hfree
  · rw [register_eq_of_declare hdeclare]
    constructor
    · intro h
      exact ⟨hsound, hfree, (Except.ok.inj h).symm⟩
    · rintro ⟨-, -, rfl⟩
      rfl

/-! ## Registries that have been built -/

theorem sound_empty : Sound {} where
  definition := nofun
  guard_once := List.Pairwise.nil
  contains_iff guard := by
    refine ⟨fun h => ?_, nofun⟩
    rw [contains, ExtTreeSet.contains_iff_mem, List.map_nil, ExtTreeSet.ofList_nil] at h
    exact absurd h ExtTreeSet.not_mem_empty

/-- Declaring one more permission keeps the declarations sound. -/
theorem Sound.register (h : registry.Sound)
    (hregister : registry.register definition = .ok registry') : registry'.Sound := by
  obtain ⟨hsound, hnew, rfl⟩ := register_eq_ok_iff.mp hregister
  constructor
  · intro other hother
    rcases List.mem_append.mp hother with hother | hother
    · exact h.definition other hother
    · rwa [List.mem_singleton.mp hother]
  · rw [List.pairwise_append]
    refine ⟨h.guard_once, List.pairwise_singleton _ _, fun other hother last hlast heq => ?_⟩
    rw [List.mem_singleton.mp hlast] at heq
    have hcontains := (h.contains_iff _).mpr ⟨other, hother, heq⟩
    rw [hnew] at hcontains
    cases hcontains
  · intro guard
    have htaken := h.contains_iff guard
    rw [contains, ExtTreeSet.contains_iff_mem] at htaken ⊢
    rw [ExtTreeSet.mem_insert, Std.LawfulEqOrd.compare_eq_iff_eq, htaken]
    simp only [List.mem_append, List.mem_singleton, or_and_right, exists_or, exists_eq_left]
    exact or_comm

/-- The declarations of a registry are sound, however it was built. -/
theorem Built.sound (h : registry.Built) : registry.Sound := by
  induction h with
  | empty => exact sound_empty
  | register _ hregister ih => exact ih.register hregister

end Registry

end GradedAccess
