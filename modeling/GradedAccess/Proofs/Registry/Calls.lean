import GradedAccess.Proofs.Registry
import Mathlib.Data.List.Induction

/-!
# What calls leave of a registry

A registry is filled by calls that add one declaration or several, and any of them may be refused.
A refused declaration leaves the registry as it was, and a refused list is accepted up to the
declaration that is refused (`registerAll_cases`).  So whatever the calls were, the registry has
come about by declarations that were accepted, and its declarations and the guards that are taken
agree (`sound_after_calls`).
-/

namespace GradedAccess

namespace Registry

variable {registry registry' : Registry} {definition : Definition}
variable {definitions : List Definition} {fault : Fault}

/-! ## One call -/

theorem eq_of_declare_error (h : declare definition registry = (.error fault, registry')) :
    registry' = registry := by
  rcases declare_cases definition registry with ⟨_, hrefused, -⟩ | ⟨-, -, haccepted⟩
  · rw [h] at hrefused
    exact congrArg Prod.snd hrefused
  · rw [h] at haccepted
    cases haccepted

theorem definitions_of_declare (h : declare definition registry = (.ok (), registry')) :
    registry'.definitions = registry.definitions ++ [definition] := by
  rcases declare_cases definition registry with ⟨_, hrefused, -⟩ | ⟨-, -, haccepted⟩
  · rw [h] at hrefused
    cases hrefused
  · rw [h] at haccepted
    exact congrArg (·.2.definitions) haccepted

/-- A call that adds to a registry. -/
inductive Call where
  | declare (definition : Definition)
  | declareAll (definitions : List Definition)

/-- The registry that a call leaves, whether the call is refused or not. -/
def after (registry : Registry) : Call → Registry
  | .declare definition => (Registry.declare definition registry).2
  | .declareAll definitions => (registry.registerAll definitions).1

/-- The registry that a list of calls leaves of an empty one. -/
def afterAll (calls : List Call) : Registry := calls.foldl after {}

/-- Whether the declarations of a list are accepted one after another, and what they lead to. -/
inductive Accepts : Registry → List Definition → Registry → Prop where
  | nil (registry : Registry) : Accepts registry [] registry
  | cons {registry between registry' : Registry} {definition : Definition}
      {definitions : List Definition} (h : declare definition registry = (.ok (), between))
      (hrest : Accepts between definitions registry') :
      Accepts registry (definition :: definitions) registry'

/-- A list is accepted, or it is accepted up to a declaration that is refused. -/
theorem registerAll_cases (registry : Registry) (definitions : List Definition) :
    (∃ registry', Accepts registry definitions registry' ∧
        registry.registerAll definitions = (registry', .ok ())) ∨
      ∃ before definition rest registry' fault, definitions = before ++ definition :: rest ∧
        Accepts registry before registry' ∧
        declare definition registry' = (.error fault, registry') ∧
        registry.registerAll definitions = (registry', .error fault) := by
  induction definitions generalizing registry with
  | nil => exact Or.inl ⟨registry, .nil registry, rfl⟩
  | cons definition definitions ih =>
    rcases declare_cases definition registry with ⟨fault, hrefused, -⟩ | ⟨-, -, haccepted⟩
    · refine Or.inr ⟨[], definition, definitions, registry, fault, rfl, .nil registry, hrefused, ?_⟩
      rw [registerAll, hrefused]
    · have hall : registry.registerAll (definition :: definitions) =
          registerAll ⟨registry.definitions ++ [definition],
            registry.guards.insert definition.guard⟩ definitions := by
        rw [registerAll, haccepted]
      rw [hall]
      rcases ih ⟨registry.definitions ++ [definition], registry.guards.insert definition.guard⟩ with
        ⟨registry', haccepts, hresult⟩ |
          ⟨before, refused, rest, registry', fault, rfl, haccepts, hrefused, hresult⟩
      · exact Or.inl ⟨registry', .cons haccepted haccepts, hresult⟩
      · exact Or.inr ⟨definition :: before, refused, rest, registry', fault, rfl,
          .cons haccepted haccepts, hrefused, hresult⟩

/-! ## What has been built -/

theorem Built.declare (h : registry.Built)
    (hdeclare : declare definition registry = (.ok (), registry')) : registry'.Built :=
  .register h (register_eq_of_declare hdeclare)

theorem Accepts.built (h : Accepts registry definitions registry') (hbuilt : registry.Built) :
    registry'.Built := by
  induction h with
  | nil => exact hbuilt
  | cons hdeclare _ ih => exact ih (hbuilt.declare hdeclare)

/-- Accepted declarations are put at the end, in their order. -/
theorem Accepts.definitions_eq (h : Accepts registry definitions registry') :
    registry'.definitions = registry.definitions ++ definitions := by
  induction h with
  | nil => rw [List.append_nil]
  | cons hdeclare _ ih =>
    rw [ih, definitions_of_declare hdeclare, List.append_assoc, List.singleton_append]

/-- Every call leaves a registry that has been built, if there was one before. -/
theorem Built.after (h : registry.Built) (call : Call) : (registry.after call).Built := by
  cases call with
  | declare definition =>
    rcases declare_cases definition registry with ⟨_, hrefused, -⟩ | ⟨-, -, haccepted⟩
    · rw [Registry.after, hrefused]
      exact h
    · rw [Registry.after, haccepted]
      exact h.declare haccepted
  | declareAll definitions =>
    rcases registerAll_cases registry definitions with
      ⟨registry', haccepts, hresult⟩ | ⟨_, _, _, registry', _, -, haccepts, -, hresult⟩
    · rw [Registry.after, hresult]
      exact haccepts.built h
    · rw [Registry.after, hresult]
      exact haccepts.built h

theorem built_afterAll (calls : List Call) : (afterAll calls).Built := by
  induction calls using List.reverseRecOn with
  | nil => exact .empty
  | append_singleton calls call ih =>
    rw [afterAll, List.foldl_append, List.foldl_cons, List.foldl_nil]
    exact ih.after call

/-- **A registry is well formed after any calls.**  Its declarations are sound, each guard is there
once, and the guards that are taken are theirs.  A refused declaration leaves a registry as it was.
A list is accepted as a whole, or up to the first declaration that is refused, and then the fault is
that one's; the accepted ones are put at the end. -/
theorem sound_after_calls (calls : List Call) :
    (afterAll calls).Sound ∧
    (∀ definition registry registry' fault,
      declare definition registry = (.error fault, registry') → registry' = registry) ∧
    ∀ definitions registry,
      (∃ registry', Accepts registry definitions registry' ∧
        registry'.definitions = registry.definitions ++ definitions ∧
        registry.registerAll definitions = (registry', .ok ())) ∨
      ∃ before definition rest registry' fault, definitions = before ++ definition :: rest ∧
        Accepts registry before registry' ∧
        registry'.definitions = registry.definitions ++ before ∧
        (declare definition registry').1 = .error fault ∧
        registry.registerAll definitions = (registry', .error fault) := by
  refine ⟨(built_afterAll calls).sound, fun _ _ _ _ => eq_of_declare_error,
    fun definitions registry => ?_⟩
  rcases registerAll_cases registry definitions with ⟨registry', haccepts, hresult⟩ |
    ⟨before, definition, rest, registry', fault, hsplit, haccepts, hrefused, hresult⟩
  · exact Or.inl ⟨registry', haccepts, haccepts.definitions_eq, hresult⟩
  · refine Or.inr ⟨before, definition, rest, registry', fault, hsplit, haccepts,
      haccepts.definitions_eq, ?_, hresult⟩
    rw [hrefused]

/-- A permission whose attribute is declared twice, and the same with the attribute once. -/
def doubled : Definition where
  category := "livemap"
  name := "Stream"
  attributes := [{ key := "Markers", kind := .jobList }, { key := "Markers", kind := .jobList }]

def single : Definition :=
  { doubled with attributes := [{ key := "Markers", kind := .jobList }] }

/-- The guard of a refused declaration is free: the declaration that has been mended is accepted,
which a second one with this guard is not. -/
theorem mended_declaration_accepted :
    (afterAll [.declare doubled, .declareAll [single, doubled]]).Sound ∧
      (declare doubled {}).2 = {} ∧
      (afterAll [.declare doubled, .declareAll [single, doubled]]).definitions = [single] ∧
      ((declare { single with order := 1 }) (afterAll [.declare doubled, .declareAll [single]])).1 =
        .error (.declaredTwice "livemap-stream") := by
  obtain ⟨hsound, hrefused, -⟩ :=
    sound_after_calls [.declare doubled, .declareAll [single, doubled]]
  have hfault : (declare doubled {}).1 =
      .error (.declaredKeyTwice "Markers" "livemap-stream") := by
    decide +kernel
  refine ⟨hsound, hrefused doubled {} _ _ (Prod.ext hfault rfl), ?_, ?_⟩
  · decide +kernel
  · decide +kernel

end Registry

end GradedAccess
