import GradedAccess.Proofs.Store.Integrity

/-!
# Earlier and later states of a store

How a store in memory relates to what it was before.  Rows come and go and are redefined, and yet
two things last: the rules a store keeps, and the permission and key under which an attribute was
created.  `Evolves` says just that, for any stretch of operations.  It is a preorder, and whoever
holds something taken from an earlier state learns from it what is still true of it.  `Ages` adds
that a role which is gone never comes back: every new role gets a new number.

All of this lasts only as long as there are numbers left, so it is assumed of the later state.
-/

namespace GradedAccess

namespace MemoryStore

variable {store store' store'' : MemoryStore}

/-- Whether one state of a store can be a later state of another: it keeps the rules, and every
attribute has its permission and its key for good. -/
structure Evolves (store store' : MemoryStore) : Prop where
  next_le : store.next ≤ store'.next
  sound : store.Sound → store'.next ≤ UInt64.size → store'.Sound
  lasting : store.Sound → store'.next ≤ UInt64.size → ∀ ⦃id : AttributeId⦄ ⦃row : Attribute⦄,
    store.attributes[id]? = some row →
      ∃ row', store'.attributes[id]? = some row' ∧ row'.permission = row.permission ∧
        row'.key = row.key

theorem Evolves.refl (store : MemoryStore) : store.Evolves store where
  next_le := Nat.le_refl _
  sound h _ := h
  lasting _ _ _ row hrow := ⟨row, hrow, rfl, rfl⟩

theorem Evolves.trans (h : store.Evolves store') (h' : store'.Evolves store'') :
    store.Evolves store'' where
  next_le := Nat.le_trans h.next_le h'.next_le
  sound hsound hroom := h'.sound (h.sound hsound (Nat.le_trans h'.next_le hroom)) hroom
  lasting hsound hroom id row hrow := by
    have hbefore := Nat.le_trans h'.next_le hroom
    obtain ⟨row', hrow', hpermission', hkey'⟩ := h.lasting hsound hbefore hrow
    obtain ⟨row'', hrow'', hpermission'', hkey''⟩ :=
      h'.lasting (h.sound hsound hbefore) hroom hrow'
    exact ⟨row'', hrow'', hpermission''.trans hpermission', hkey''.trans hkey'⟩

/-- Attributes that stay the same keep their permissions and keys. -/
theorem Evolves.of_attributes_eq (hnext : store.next ≤ store'.next)
    (hsound : store.Sound → store'.next ≤ UInt64.size → store'.Sound)
    (hattributes : store'.attributes = store.attributes) : store.Evolves store' where
  next_le := hnext
  sound := hsound
  lasting _ _ _ row hrow := ⟨row, hattributes ▸ hrow, rfl, rfl⟩

/-- A store evolves with every operation. -/
theorem evolves_after (store : MemoryStore) (op : Operation) : store.Evolves (store.after op) := by
  have hnext := store.next_le_after op
  have hsound : store.Sound → (store.after op).next ≤ UInt64.size → (store.after op).Sound :=
    fun h hroom => h.after hroom
  cases op with
  | createRole job grade =>
    refine .of_attributes_eq hnext hsound ?_
    rcases createRole_cases store job grade with h | ⟨-, h⟩
    · rw [h]
    · rw [h]
      rfl
  | deleteRole role =>
    refine .of_attributes_eq hnext hsound ?_
    rcases deleteRole_cases store role with h | ⟨-, h⟩ <;> rw [h]
  | setGrant role permission value =>
    refine .of_attributes_eq hnext hsound ?_
    rcases setGrant_cases store role permission value with h | ⟨-, h⟩ <;> rw [h]
  | setValue role attr value =>
    refine .of_attributes_eq hnext hsound ?_
    rcases setValue_cases store role attr value with h | ⟨-, h⟩ <;> rw [h]
  | removeValue role attr => exact .of_attributes_eq hnext hsound rfl
  | setCeiling job attr most =>
    refine .of_attributes_eq hnext hsound ?_
    rcases setCeiling_cases store job attr most with h | ⟨-, h⟩ <;> rw [h]
  | removeCeiling job attr => exact .of_attributes_eq hnext hsound rfl
  | createPermission new =>
    refine .of_attributes_eq hnext hsound ?_
    rcases createPermission_cases store new with h | ⟨row, -, -, h⟩
    · rw [h]
      rfl
    · rw [h]
      rfl
  | createAttribute new =>
    refine ⟨hnext, hsound, fun hstore hroom id row hrow => ?_⟩
    rcases createAttribute_cases store new with h | h | ⟨made, -, -, -, -, h⟩ <;> rw [h] at hroom ⊢
    · exact ⟨row, hrow, rfl, rfl⟩
    · exact ⟨row, hrow, rfl, rfl⟩
    · -- the number of the new attribute is not the number of an earlier one
      have hne : id ≠ store.nextId := by
        rintro rfl
        exact nextId_notMem hstore.attribute_given hroom (mem_iff_exists.mpr ⟨row, hrow⟩)
      exact ⟨row, (getElem?_insert_of_ne _ _ hne).trans hrow, rfl, rfl⟩
  | redefine id kind valid =>
    refine ⟨hnext, hsound, fun _ _ id' row hrow => ?_⟩
    rcases redefine_cases store id kind valid with h |
      ⟨earlier, made, hearlier, -, hpermission, hkey, -, h⟩ <;> rw [h]
    · exact ⟨row, hrow, rfl, rfl⟩
    · by_cases hid : id' = id
      · subst hid
        rw [hearlier, Option.some.injEq] at hrow
        exact ⟨made, Std.ExtTreeMap.getElem?_insert_self, hrow ▸ hpermission, hrow ▸ hkey⟩
      · exact ⟨row, (getElem?_insert_of_ne _ _ hid).trans hrow, rfl, rfl⟩

/-- Answering a request does to a store what an operation does, or nothing. -/
theorem answer_cases {α : Type} (request : Request α) (store : MemoryStore) :
    (answer request store).2 = store ∨ ∃ op, (answer request store).2 = store.after op := by
  cases request with
  | createPermission new => exact Or.inr ⟨.createPermission new, rfl⟩
  | createAttribute new => exact Or.inr ⟨.createAttribute new, rfl⟩
  | redefine id kind valid => exact Or.inr ⟨.redefine id kind valid, rfl⟩
  | _ => exact Or.inl rfl

/-! ## Roles do not come back -/

/-- Whether a store evolves and no role comes back meanwhile: whatever role there is under a number
that had been given out before was there before, with the same job and grade. -/
structure Ages (store store' : MemoryStore) : Prop extends store.Evolves store' where
  older : store.Sound → store'.next ≤ UInt64.size → ∀ ⦃id : RoleId⦄ ⦃row : Role⦄,
    store'.roles[id]? = some row → id.num.toNat < store.next → store.roles[id]? = some row

theorem Ages.refl (store : MemoryStore) : store.Ages store where
  toEvolves := .refl store
  older _ _ _ _ hrow _ := hrow

theorem Ages.trans (h : store.Ages store') (h' : store'.Ages store'') : store.Ages store'' where
  toEvolves := h.toEvolves.trans h'.toEvolves
  older hsound hroom id row hrow hgiven := by
    have hbefore := Nat.le_trans h'.next_le hroom
    refine h.older hsound hbefore ?_ hgiven
    exact h'.older (h.sound hsound hbefore) hroom hrow (Nat.lt_of_lt_of_le hgiven h.next_le)

/-- With every operation a store ages. -/
theorem ages_after (store : MemoryStore) (op : Operation) : store.Ages (store.after op) := by
  refine ⟨store.evolves_after op, fun hsound hroom id row hrow hgiven => ?_⟩
  cases op with
  | createRole job grade =>
    rcases createRole_cases store job grade with h | ⟨-, h⟩ <;> rw [h] at hrow hroom
    · exact hrow
    · -- the number of the new role had not been given out
      rcases getElem?_insert_cases hrow with ⟨rfl, -⟩ | ⟨-, hrow⟩
      · rw [toNat_nextId hroom] at hgiven
        exact absurd hgiven (Nat.lt_irrefl _)
      · exact hrow
  | deleteRole role =>
    rcases deleteRole_cases store role with h | ⟨-, h⟩ <;> rw [h] at hrow
    · exact hrow
    · exact (getElem?_erase_cases hrow).2
  | setGrant role permission value =>
    rcases setGrant_cases store role permission value with h | ⟨-, h⟩ <;> rwa [h] at hrow
  | setValue role attr value =>
    rcases setValue_cases store role attr value with h | ⟨-, h⟩ <;> rwa [h] at hrow
  | removeValue role attr => exact hrow
  | setCeiling job attr most =>
    rcases setCeiling_cases store job attr most with h | ⟨-, h⟩ <;> rwa [h] at hrow
  | removeCeiling job attr => exact hrow
  | createPermission new =>
    rcases createPermission_cases store new with h | ⟨made, -, -, h⟩ <;> rwa [h] at hrow
  | createAttribute new =>
    rcases createAttribute_cases store new with h | h | ⟨made, -, -, -, -, h⟩ <;> rwa [h] at hrow
  | redefine id kind valid =>
    rcases redefine_cases store id kind valid with h | ⟨_, made, -, -, -, -, -, h⟩ <;>
      rwa [h] at hrow

theorem ages_afterAll (store : MemoryStore) (ops : List Operation) :
    store.Ages (store.afterAll ops) := by
  induction ops generalizing store with
  | nil => exact .refl store
  | cons op ops ih => exact (store.ages_after op).trans (ih (store.after op))

theorem ages_answer {α : Type} (request : Request α) (store : MemoryStore) :
    store.Ages (answer request store).2 := by
  rcases answer_cases request store with h | ⟨op, h⟩ <;> rw [h]
  · exact .refl store
  · exact store.ages_after op

theorem evolves_afterAll (store : MemoryStore) (ops : List Operation) :
    store.Evolves (store.afterAll ops) :=
  (store.ages_afterAll ops).toEvolves

theorem evolves_answer {α : Type} (request : Request α) (store : MemoryStore) :
    store.Evolves (answer request store).2 :=
  (ages_answer request store).toEvolves

end MemoryStore

end GradedAccess
