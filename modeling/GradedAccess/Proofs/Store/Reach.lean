import GradedAccess.Proofs.Session

/-!
# What operations lead to

Whatever an engine and others do to a store in memory, they do it by operations, one after another.
So the store of a session is what some operations make of an empty store (`Session.reaches`), and a
rule that every operation keeps is a rule that every such store keeps.

One such rule is that no attribute has a blank key: a row with a blank key is never made, and the
key of a row never changes.
-/

namespace GradedAccess

namespace MemoryStore

variable {store store' store'' : MemoryStore}

/-- Whether some operations, one after another, lead from one store to another. -/
def Reaches (store store' : MemoryStore) : Prop := ∃ ops, store.afterAll ops = store'

theorem Reaches.refl (store : MemoryStore) : store.Reaches store := ⟨[], rfl⟩

theorem Reaches.trans (h : store.Reaches store') (h' : store'.Reaches store'') :
    store.Reaches store'' := by
  obtain ⟨ops, rfl⟩ := h
  obtain ⟨ops', rfl⟩ := h'
  exact ⟨ops ++ ops', store.afterAll_append ops ops'⟩

theorem reaches_answer {α : Type} (request : Request α) (store : MemoryStore) :
    store.Reaches (answer request store).2 := by
  rcases answer_cases request store with h | ⟨op, h⟩ <;> rw [h]
  · exact .refl store
  · exact ⟨[op], rfl⟩

/-- What every operation keeps holds of every store that operations lead to. -/
theorem Reaches.keeps {P : MemoryStore → Prop}
    (hafter : ∀ (store : MemoryStore) (op : Operation), P store → P (store.after op))
    (h : store.Reaches store') (hstore : P store) : P store' := by
  obtain ⟨ops, rfl⟩ := h
  induction ops generalizing store with
  | nil => exact hstore
  | cons op ops ih => exact ih (hafter store op hstore)

theorem reaches_fetch {α : Type} (limit : Duration) (loading : String) (request : Request α) :
    Fetch.Relates Reaches ((source limit).fetch loading request) :=
  fun store => reaches_answer request store

/-- Everything a loader asks of a store is done by operations. -/
theorem respects_reaches (limit : Duration) : (source limit).Respects Reaches where
  refl := .refl
  trans _ _ _ h h' := h.trans h'
  read loading request _ := reaches_fetch limit loading request

/-! ## Keys -/

/-- Whether no attribute of a store has a blank key. -/
def NoneKeyless (store : MemoryStore) : Prop :=
  ∀ ⦃id : AttributeId⦄ ⦃row : Attribute⦄, store.attributes[id]? = some row →
    isBlank row.key = false

/-- An attribute that is made has the key that was asked for, and it is not blank. -/
theorem key_of_make? {id : AttributeId} {permission : PermissionId} {key : String}
    {kind : AttributeKind} {valid : Option AttributeValue} {row : Attribute}
    (h : Attribute.make? id permission key kind valid = .ok row) :
    row.key = key ∧ isBlank key = false := by
  refine ⟨(make?_eq_ok h).2.2.1, ?_⟩
  rw [Attribute.make?] at h
  split at h
  · cases h
  · next hkey => exact Bool.not_eq_true _ ▸ hkey

/-- Filing an attribute whose key is not blank keeps the others. -/
theorem NoneKeyless.insert (h : store.NoneKeyless) {row : Attribute}
    (hrow : isBlank row.key = false) (id : AttributeId) :
    NoneKeyless { store with attributes := store.attributes.insert id row } := by
  intro id' found hfound
  rcases getElem?_insert_cases hfound with ⟨-, rfl⟩ | ⟨-, hbefore⟩
  · exact hrow
  · exact h hbefore

/-- No operation gives a store an attribute with a blank key. -/
theorem NoneKeyless.after (h : store.NoneKeyless) (op : Operation) :
    (store.after op).NoneKeyless := by
  cases op with
  | createAttribute new =>
    rw [MemoryStore.after, createAttribute]
    cases store.ensureFreeKey new.permission new.key with
    | error fault => exact h
    | ok _ =>
      dsimp only
      cases hmake : Attribute.make? store.nextId new.permission new.key new.kind new.valid with
      | error fault => exact h
      | ok row =>
        obtain ⟨hkey, hshown⟩ := key_of_make? hmake
        exact h.insert (hkey ▸ hshown) row.id
  | redefine id kind valid =>
    rcases redefine_cases store id kind valid with heq |
      ⟨earlier, row, hearlier, -, -, hkey, -, heq⟩ <;> rw [heq]
    · exact h
    · exact h.insert (hkey ▸ h hearlier) id
  | createRole job grade =>
    rcases createRole_cases store job grade with heq | ⟨-, heq⟩ <;> rw [heq] <;> exact h
  | deleteRole role =>
    rcases deleteRole_cases store role with heq | ⟨-, heq⟩ <;> rw [heq] <;> exact h
  | setGrant role permission value =>
    rcases setGrant_cases store role permission value with heq | ⟨-, heq⟩ <;> rw [heq] <;> exact h
  | setValue role attr value =>
    rcases setValue_cases store role attr value with heq | ⟨-, heq⟩ <;> rw [heq] <;> exact h
  | setCeiling job attr most =>
    rcases setCeiling_cases store job attr most with heq | ⟨-, heq⟩ <;> rw [heq] <;> exact h
  | createPermission new =>
    rcases createPermission_cases store new with heq | ⟨row, -, -, heq⟩ <;> rw [heq] <;> exact h
  | removeValue | removeCeiling => exact h

theorem Reaches.noneKeyless (h : store.Reaches store') (hkeys : store.NoneKeyless) :
    store'.NoneKeyless :=
  h.keeps (fun _ op hkeys => hkeys.after op) hkeys

end MemoryStore

namespace Shared

/-- A request and what others do after it are operations. -/
theorem reaches_fetch {α : Type} (limit : Duration) (loading : String) (request : Request α) :
    Fetch.Relates (fun shared shared' => shared.store.Reaches shared'.store)
      ((source limit).fetch loading request) :=
  fun shared => (MemoryStore.reaches_answer request shared.store).trans ⟨_, rfl⟩

theorem respects_reaches (limit : Duration) : (source limit).Respects
    fun shared shared' => shared.store.Reaches shared'.store where
  refl shared := .refl shared.store
  trans _ _ _ h h' := h.trans h'
  read loading request _ := reaches_fetch limit loading request

end Shared

namespace Session

/-- A step of a session is done by operations, as far as the store goes. -/
theorem reaches_step (limit : Duration) (state : Loaded MemoryStore) (first : Step) :
    state.store.Reaches (step limit state first).store := by
  cases first with
  | operation op => exact ⟨[op], rfl⟩
  | call call meanwhile =>
    have hcall : state.store.Reaches
        (call.after limit ⟨state.caches, ⟨state.store, meanwhile⟩⟩).store.store := by
      cases call with
      | reload scope =>
        exact (Shared.respects_reaches limit).carries.reload scope
          ⟨state.caches, ⟨state.store, meanwhile⟩⟩
      | apply event =>
        exact (Shared.respects_reaches limit).carries.applyEvent event
          ⟨state.caches, ⟨state.store, meanwhile⟩⟩
      | enrol registry =>
        exact (Shared.respects_reaches limit).enrol (Shared.reaches_fetch limit) registry
          ⟨state.store, meanwhile⟩
    exact hcall.trans ⟨_, rfl⟩

/-- The store of a session is what some operations have made of an empty one. -/
theorem reaches (limit : Duration) (steps : List Step) :
    MemoryStore.Reaches {} (reached limit steps).store := by
  have hrun : ∀ state : Loaded MemoryStore, state.store.Reaches (run limit steps state).store := by
    induction steps with
    | nil => exact fun state => .refl state.store
    | cons first steps ih => exact fun state => (reaches_step limit state first).trans (ih _)
  exact hrun ⟨{}, {}⟩

/-- No attribute of the store of a session has a blank key. -/
theorem noneKeyless_reached (limit : Duration) (steps : List Step) :
    (reached limit steps).store.NoneKeyless := by
  have hempty : MemoryStore.NoneKeyless {} := by
    intro id row hrow
    simp at hrow
  exact (reaches limit steps).noneKeyless hempty

end Session

end GradedAccess
