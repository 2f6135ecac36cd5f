import GradedAccess.Proofs.Store.History
import GradedAccess.Proofs.Store.Numbers

/-!
# Refused operations, and a store whatever has happened to it

`after` only looks at what an operation leaves; `verdict` is the other half, whether it was carried
out or refused.  A refused operation leaves all rows as they were (`sameRows_of_refused`).  All it
may have done is to use up a number: a permission and an attribute take theirs before the row is
checked.  The same goes for what an engine asks of the store as a request.

Together with the rules a store keeps and with its numbers being used once, this is what holds of a
store in memory after any run of operations (`intact_afterAll`).
-/

namespace GradedAccess

namespace MemoryStore

variable {store : MemoryStore}

/-- Whether an operation is carried out, or the fault it is refused with. -/
def verdict (store : MemoryStore) : Operation → Except Fault Unit
  | .createRole job grade => (store.createRole job grade).1.map fun _ => ()
  | .deleteRole role => (store.deleteRole role).1
  | .setGrant role permission value => (store.setGrant role permission value).1
  | .setValue role attr value => (store.setValue role attr value).1
  | .removeValue _ _ => .ok ()
  | .setCeiling job attr most => (store.setCeiling job attr most).1
  | .removeCeiling _ _ => .ok ()
  | .createPermission new => (store.createPermission new).1.map fun _ => ()
  | .createAttribute new => (store.createAttribute new).1.map fun _ => ()
  | .redefine id kind valid => (store.redefine id kind valid).1

/-- Whether two stores hold the same rows: they differ in the counter at most. -/
def SameRows (store store' : MemoryStore) : Prop := store' = { store with next := store'.next }

instance (store store' : MemoryStore) : Decidable (store.SameRows store') :=
  inferInstanceAs (Decidable (_ = _))

theorem SameRows.refl (store : MemoryStore) : store.SameRows store := rfl

theorem sameRows_advance (store : MemoryStore) : store.SameRows store.advance := rfl

/-! ## Refusals -/

/-- A guarded change that is refused does not happen. -/
theorem sameRows_guarded {allowed : Except Fault Unit} {changed : MemoryStore} {fault : Fault}
    (h : (store.guarded allowed changed).1 = .error fault) :
    store.SameRows (store.guarded allowed changed).2 := by
  cases allowed with
  | error fault => exact .refl store
  | ok _ => cases h

/-- A role that is refused is not created. -/
theorem sameRows_createRole {job : String} {grade : Grade} {fault : Fault}
    (h : (store.createRole job grade).1 = .error fault) :
    store.SameRows (store.createRole job grade).2 := by
  rw [createRole] at h ⊢
  split at h
  · next htaken =>
    rw [if_pos htaken]
    exact .refl store
  · cases h

/-- A permission that is refused is not created; its number is used up. -/
theorem sameRows_createPermission {new : NewPermission} {fault : Fault}
    (h : (store.createPermission new).1 = .error fault) :
    store.SameRows (store.createPermission new).2 := by
  rw [createPermission] at h ⊢
  cases hmake : Permission.make? store.nextId new.category new.name new.order with
  | error fault => exact store.sameRows_advance
  | ok row =>
    rw [hmake] at h
    dsimp only at h ⊢
    split at h
    · next htaken =>
      rw [if_pos htaken]
      exact store.sameRows_advance
    · cases h

/-- An attribute that is refused is not created; a number may have been used up. -/
theorem sameRows_createAttribute {new : NewAttribute} {fault : Fault}
    (h : (store.createAttribute new).1 = .error fault) :
    store.SameRows (store.createAttribute new).2 := by
  rw [createAttribute] at h ⊢
  cases hfree : store.ensureFreeKey new.permission new.key with
  | error fault => exact .refl store
  | ok _ =>
    rw [hfree] at h
    dsimp only at h ⊢
    cases hmake : Attribute.make? store.nextId new.permission new.key new.kind new.valid with
    | error fault => exact store.sameRows_advance
    | ok row =>
      rw [hmake] at h
      cases h

/-- An attribute that may not be redefined stays as it is. -/
theorem sameRows_redefine {id : AttributeId} {kind : AttributeKind}
    {valid : Option AttributeValue} {fault : Fault}
    (h : (store.redefine id kind valid).1 = .error fault) :
    store.SameRows (store.redefine id kind valid).2 := by
  rw [redefine] at h ⊢
  cases hearlier : store.attributes[id]? with
  | none => exact .refl store
  | some earlier =>
    rw [hearlier] at h
    dsimp only at h ⊢
    cases hmake : Attribute.make? id earlier.permission earlier.key kind valid with
    | error fault => exact .refl store
    | ok row =>
      rw [hmake] at h
      cases h

/-- What is left of an answer when its row does not matter is a fault only if the answer was. -/
theorem eq_error_of_map {α : Type} {answer : Except Fault α} {fault : Fault}
    (h : (answer.map fun _ => ()) = .error fault) : answer = .error fault := by
  cases answer with
  | error fault => exact congrArg Except.error (Except.error.inj h)
  | ok row => cases h

/-- **A refused operation leaves all rows as they were.** -/
theorem sameRows_of_refused {op : Operation} {fault : Fault}
    (h : store.verdict op = .error fault) : store.SameRows (store.after op) := by
  cases op with
  | createRole job grade => exact sameRows_createRole (eq_error_of_map h)
  | createPermission new => exact sameRows_createPermission (eq_error_of_map h)
  | createAttribute new => exact sameRows_createAttribute (eq_error_of_map h)
  | redefine id kind valid => exact sameRows_redefine h
  | deleteRole | setGrant | setValue | setCeiling => exact sameRows_guarded h
  | removeValue | removeCeiling => cases h

/-- A request that is refused leaves all rows as they were. -/
theorem sameRows_of_answer {α : Type} {request : Request α} {fault : Fault}
    (h : (answer request store).1 = .error fault) : store.SameRows (answer request store).2 := by
  cases request with
  | createPermission new => exact sameRows_createPermission h
  | createAttribute new => exact sameRows_createAttribute h
  | redefine id kind valid => exact sameRows_redefine h
  | permissions | attributes | roles | role | grants | values | ceilings => cases h

/-! ## A store whatever has happened to it -/

/-- What holds of a store in memory whatever has been done to it. -/
structure Intact (store : MemoryStore) : Prop where
  /-- Rows are filed under their own numbers, guards, keys and slots are used once, rows refer to
  rows that exist, and valid values are of the kind of their attribute. -/
  sound : store.Sound
  /-- A number names at most one row, of whatever kind. -/
  numbers : store.numbers.Nodup
  /-- An operation that is refused changes no row. -/
  refused : ∀ (op : Operation) (fault : Fault), store.verdict op = .error fault →
    store.SameRows (store.after op)
  /-- A request that is answered with a fault changes no row. -/
  unanswered : ∀ (α : Type) (request : Request α) (fault : Fault),
    (answer request store).1 = .error fault → store.SameRows (answer request store).2

/-- **A store in memory is intact after every run of operations**, refused ones among them, as long
as there are numbers left. -/
theorem intact_afterAll {ops : List Operation}
    (hroom : (afterAll {} ops).next ≤ UInt64.size) : (afterAll {} ops).Intact where
  sound := sound_empty.afterAll hroom
  numbers := nodup_numbers (sound_empty.afterAll hroom) (apart_empty.afterAll sound_empty hroom)
  refused _ _ h := sameRows_of_refused h
  unanswered _ _ _ h := sameRows_of_answer h

/-- A role with a grant and a value is deleted and created again.  Along the way a second role in
the same slot is refused, a second permission of the same guard, which uses up a number, and valid
values of another kind. -/
def reorganisation : List Operation :=
  [.createPermission ⟨"citizens", "List", 0⟩,
    .createAttribute ⟨⟨1⟩, "fields", .stringList, some (.strings ⟨["name"]⟩)⟩,
    .createRole "police" 5,
    .setGrant ⟨3⟩ ⟨1⟩ (some true),
    .setValue ⟨3⟩ ⟨2⟩ none,
    .createRole "police" 5,
    .createPermission ⟨"Citizens", "list", 1⟩,
    .redefine ⟨2⟩ .jobList (some (.strings ⟨["name"]⟩)),
    .deleteRole ⟨3⟩,
    .createRole "police" 5]

/-- The store is intact after a reorganisation, in which the permission and the attribute have kept
their numbers, the number of the refused permission has been skipped, and nothing has been left of
the deleted role. -/
theorem intact_reorganisation :
    let store := afterAll {} reorganisation
    store.next ≤ UInt64.size ∧ store.Intact ∧ store.numbers = [1, 2, 5] ∧ store.grants = ∅ ∧
      store.verdict (.createPermission ⟨"Citizens", "list", 1⟩) =
        .error (.permissionTaken "citizens-list") := by
  intro store
  have hroom : store.next ≤ UInt64.size := by decide +kernel
  exact ⟨hroom, intact_afterAll hroom, by decide +kernel, by decide +kernel, by decide +kernel⟩

end MemoryStore

end GradedAccess
