import GradedAccess.Catalog
import GradedAccess.Proofs.EachAfter
import GradedAccess.Proofs.Tables
import Mathlib.Data.List.Induction
import Mathlib.Data.List.Nodup

/-!
# Replacing the rows of the catalog

What a catalog finds after its attributes have been replaced, whatever has been done to it before.

By their numbers just the listed attributes are found.  By permission and key the listed attributes
are found too, but not only by the key each of them has now.  The keys are kept by number: a key
that no listed attribute has stays as long as the attribute it leads to is listed, even if that
attribute has another key by now.  So a key that was given to an attribute once leads to it until
the attribute is missing from a list or the key is given away again (`LeftKey`), and
`keys_after_iff` says that no other key leads anywhere.

Replacing attributes therefore makes the keys those of the listed attributes only if no earlier key
of one of them is still left with it (`attributes_of_history`).
-/

namespace GradedAccess

open Std (ExtTreeMap)

namespace Catalog

variable {catalog : Catalog} {rows : List Attribute} {row : Attribute}
variable {permission : PermissionId} {key : String} {id : AttributeId}

/-! ## One replacement -/

/-- The keys after attributes have been replaced: the last row with a key has it, or else whoever
had it before and is still there. -/
theorem getElem?_keys_replaceAttributes (catalog : Catalog) (rows : List Attribute)
    (permission : PermissionId) (key : String) :
    (catalog.replaceAttributes rows).1.keys[(permission, key)]? =
      (PairTable.lastFor (permission, key)
          (rows.map fun row => ((row.permission, row.key), row.id))).or
        (catalog.keys[(permission, key)]?.filter fun id =>
          (ExtTreeMap.ofList (rows.map fun row => (row.id, row)) compare).contains id) := by
  have hfold : (catalog.replaceAttributes rows).1.keys =
      (rows.map fun row => ((row.permission, row.key), row.id)).foldl
        (fun table row => table.insert row.1 row.2)
        (catalog.keys.filter fun _ id =>
          (ExtTreeMap.ofList (rows.map fun row => (row.id, row)) compare).contains id) := by
    rw [List.foldl_map]
    rfl
  rw [hfold, PairTable.getElem?_foldl_insert, ExtTreeMap.getElem?_filter']

/-- The attributes after a replacement: the last row with a number has it. -/
theorem attr_replaceAttributes (catalog : Catalog) (rows : List Attribute) (id : AttributeId) :
    (catalog.replaceAttributes rows).1.attr id =
      PairTable.lastFor id (rows.map fun row => (row.id, row)) :=
  PairTable.getElem?_ofList _ id

/-- Rows with distinct numbers are found by their numbers. -/
theorem attr_replaceAttributes_iff (hids : rows.Pairwise fun a b => a.id ≠ b.id) :
    (catalog.replaceAttributes rows).1.attr id = some row ↔ row ∈ rows ∧ row.id = id := by
  rw [attr_replaceAttributes, PairTable.lastFor_eq_some_iff (List.pairwise_map.mpr hids),
    List.mem_map]
  simp only [Prod.mk.injEq]
  constructor
  · rintro ⟨row, hmem, rfl, rfl⟩
    exact ⟨hmem, rfl⟩
  · rintro ⟨hmem, rfl⟩
    exact ⟨row, hmem, rfl, rfl⟩

/-! ## Histories -/

/-- Something that is done to a catalog. -/
inductive Change where
  | permissions (rows : List Permission)
  | attributes (rows : List Attribute)

/-- The catalog after a change. -/
def apply (catalog : Catalog) : Change → Catalog
  | .permissions rows => (catalog.replacePermissions rows).1
  | .attributes rows => (catalog.replaceAttributes rows).1

/-- The catalog after some changes, one after another. -/
def after (catalog : Catalog) (changes : List Change) : Catalog := changes.foldl apply catalog

variable {changes : List Change}

@[simp] theorem after_concat (changes : List Change) (last : Change) :
    catalog.after (changes ++ [last]) = (catalog.after changes).apply last := by
  rw [after, List.foldl_append]
  rfl

/-- Whether a change gives a key to an attribute: it is that of the last listed row with the key. -/
def Change.GivesKey (permission : PermissionId) (key : String) (id : AttributeId) : Change → Prop
  | .permissions _ => False
  | .attributes rows =>
    PairTable.lastFor (permission, key) (rows.map fun row => ((row.permission, row.key), row.id)) =
      some id

/-- Whether a change leaves a key with an attribute: if attributes are listed, this one is among
them and none of them has the key. -/
def Change.LeavesKey (permission : PermissionId) (key : String) (id : AttributeId) : Change → Prop
  | .permissions _ => True
  | .attributes rows =>
    (∃ row ∈ rows, row.id = id) ∧ ∀ row ∈ rows, ¬(row.permission = permission ∧ row.key = key)

/-- Whether a history leaves a key with an attribute: some change has given it the key, and every
later one has left it there. -/
def LeftKey (changes : List Change) (permission : PermissionId) (key : String)
    (id : AttributeId) : Prop :=
  SomeSince (fun _ change => change.GivesKey permission key id) (·.LeavesKey permission key id)
    changes

theorem leftKey_concat_iff (changes : List Change) (last : Change) :
    LeftKey (changes ++ [last]) permission key id ↔
      last.GivesKey permission key id ∨
        LeftKey changes permission key id ∧ last.LeavesKey permission key id :=
  someSince_concat_iff

/-- After a change a key leads to the attribute that it was given to or left with. -/
theorem keys_apply_iff (catalog : Catalog) (change : Change) :
    (catalog.apply change).keys[(permission, key)]? = some id ↔
      change.GivesKey permission key id ∨
        catalog.keys[(permission, key)]? = some id ∧ change.LeavesKey permission key id := by
  cases change with
  | permissions rows => exact ⟨fun h => Or.inr ⟨h, trivial⟩, fun h => h.elim False.elim And.left⟩
  | attributes rows =>
    have hlisted : (ExtTreeMap.ofList (rows.map fun row => (row.id, row)) compare).contains id =
        true ↔ ∃ row ∈ rows, row.id = id := by
      rw [ExtTreeMap.contains_ofList, List.contains_iff_mem, List.map_map, List.mem_map]
      rfl
    have hfree : PairTable.lastFor (permission, key)
        (rows.map fun row => ((row.permission, row.key), row.id)) = none ↔
          ∀ row ∈ rows, ¬(row.permission = permission ∧ row.key = key) := by
      rw [PairTable.lastFor_eq_none_iff, List.forall_mem_map]
      simp only [ne_eq, Prod.mk.injEq]
    rw [apply, getElem?_keys_replaceAttributes, Option.or_eq_some_iff, hfree,
      Option.filter_eq_some_iff, hlisted, Change.GivesKey, Change.LeavesKey]
    refine or_congr_right ?_
    constructor
    · rintro ⟨hfree, hkey, hlisted⟩
      exact ⟨hkey, hlisted, hfree⟩
    · rintro ⟨hkey, hlisted, hfree⟩
      exact ⟨hfree, hkey, hlisted⟩

/-- The keys of a catalog lead to the attributes its history has left them with. -/
theorem keys_after_iff :
    (after {} changes).keys[(permission, key)]? = some id ↔ LeftKey changes permission key id := by
  induction changes using List.reverseRecOn with
  | nil => exact iff_of_false (by simp [after]) (not_someSince_nil _ _)
  | append_singleton changes last ih =>
    rw [after_concat, keys_apply_iff, ih, leftKey_concat_iff]

/-! ## Attributes after a replacement -/

/-- Rows with distinct keys give a key to the attribute that has it. -/
theorem givesKey_attributes_iff
    (hkeys : rows.Pairwise fun a b => (a.permission, a.key) ≠ (b.permission, b.key)) :
    (Change.attributes rows).GivesKey permission key id ↔
      ∃ row ∈ rows, row.permission = permission ∧ row.key = key ∧ row.id = id := by
  rw [Change.GivesKey, PairTable.lastFor_eq_some_iff (List.pairwise_map.mpr hkeys), List.mem_map]
  simp only [Prod.mk.injEq, and_assoc]

/-- The attributes that are found by a key after a replacement. -/
theorem attributeByKey_replaceAttributes_iff (hids : rows.Pairwise fun a b => a.id ≠ b.id)
    (hkeys : rows.Pairwise fun a b => (a.permission, a.key) ≠ (b.permission, b.key))
    (changes : List Change) (permission : PermissionId) (key : String) (row : Attribute) :
    ((after {} changes).replaceAttributes rows).1.attributeByKey permission key = some row ↔
      row ∈ rows ∧ (row.permission = permission ∧ row.key = key ∨
        (∀ other ∈ rows, ¬(other.permission = permission ∧ other.key = key)) ∧
          LeftKey changes permission key row.id) := by
  have hled : ∀ id,
      ((after {} changes).replaceAttributes rows).1.keys[(permission, key)]? = some id ↔
      (∃ row ∈ rows, row.permission = permission ∧ row.key = key ∧ row.id = id) ∨
        LeftKey changes permission key id ∧ (∃ row ∈ rows, row.id = id) ∧
          ∀ row ∈ rows, ¬(row.permission = permission ∧ row.key = key) := by
    intro id
    rw [← givesKey_attributes_iff hkeys, ← keys_after_iff]
    exact keys_apply_iff (after {} changes) (.attributes rows)
  simp only [attributeByKey, Option.bind_eq_some_iff, hled, attr_replaceAttributes_iff hids]
  constructor
  · rintro ⟨_, hled, hmem, rfl⟩
    refine ⟨hmem, hled.imp ?_ fun hleft => ⟨hleft.2.2, hleft.1⟩⟩
    rintro ⟨other, hother, hpermission, hkey, hid⟩
    have hnodup : (rows.map (·.id)).Nodup := List.pairwise_map.mpr hids
    obtain rfl := List.inj_on_of_nodup_map hnodup hother hmem hid
    exact ⟨hpermission, hkey⟩
  · rintro ⟨hmem, hled⟩
    refine ⟨row.id, hled.imp ?_ fun hleft => ⟨hleft.2, ⟨row, hmem, rfl⟩, hleft.1⟩, hmem, rfl⟩
    rintro ⟨hpermission, hkey⟩
    exact ⟨row, hmem, hpermission, hkey, rfl⟩

/-- **Attributes after a replacement.**  Whatever has been done to a catalog, the attributes that
are found by number after a replacement are those of the list.  By permission and key an attribute
of the list is found if it has the key, or if no attribute of the list has it and the history has
left it with this one.  So the keys are those of the list exactly if every key that the history has
left with an attribute of the list is a key of the list. -/
theorem attributes_of_history (changes : List Change) {rows : List Attribute}
    (hids : rows.Pairwise fun a b => a.id ≠ b.id)
    (hkeys : rows.Pairwise fun a b => (a.permission, a.key) ≠ (b.permission, b.key)) :
    let catalog := ((after {} changes).replaceAttributes rows).1
    (∀ id row, catalog.attr id = some row ↔ row ∈ rows ∧ row.id = id) ∧
    (∀ permission key row, catalog.attributeByKey permission key = some row ↔
      row ∈ rows ∧ (row.permission = permission ∧ row.key = key ∨
        (∀ other ∈ rows, ¬(other.permission = permission ∧ other.key = key)) ∧
          LeftKey changes permission key row.id)) ∧
    ((∀ permission key row, catalog.attributeByKey permission key = some row ↔
        row ∈ rows ∧ row.permission = permission ∧ row.key = key) ↔
      ∀ row ∈ rows, ∀ permission key, LeftKey changes permission key row.id →
        ∃ other ∈ rows, other.permission = permission ∧ other.key = key) := by
  intro catalog
  have hfound := attributeByKey_replaceAttributes_iff hids hkeys changes
  refine ⟨fun _ _ => attr_replaceAttributes_iff hids, hfound, ?_⟩
  constructor
  · intro hlisted row hmem permission key hleft
    by_contra hnone
    have hfree : ∀ other ∈ rows, ¬(other.permission = permission ∧ other.key = key) :=
      fun other hother hown => hnone ⟨other, hother, hown⟩
    have hstale := (hfound permission key row).mpr ⟨hmem, Or.inr ⟨hfree, hleft⟩⟩
    exact hfree row hmem ((hlisted permission key row).mp hstale).2
  · intro hall permission key row
    refine (hfound permission key row).trans (and_congr_right fun hmem => or_iff_left ?_)
    rintro ⟨hfree, hleft⟩
    obtain ⟨other, hother, hown⟩ := hall row hmem permission key hleft
    exact hfree other hother hown

/-- An attribute that is listed under another key than before is still found by the earlier one. -/
theorem renamed_attribute_keeps_key :
    let listed : Attribute := ⟨⟨5⟩, ⟨1⟩, "Fields", .stringList, .strings {}⟩
    let renamed : Attribute := ⟨⟨5⟩, ⟨1⟩, "Columns", .stringList, .strings {}⟩
    let catalog := ((after {} [.attributes [listed]]).replaceAttributes [renamed]).1
    catalog.attributeByKey ⟨1⟩ "Fields" = some renamed ∧
      catalog.attributeByKey ⟨1⟩ "Columns" = some renamed := by
  intro listed renamed catalog
  have hfound := (attributes_of_history [.attributes [listed]] (List.pairwise_singleton _ renamed)
    (List.pairwise_singleton _ renamed)).2.1
  refine ⟨(hfound ⟨1⟩ "Fields" renamed).mpr ⟨List.mem_singleton_self _, Or.inr ⟨by decide, ?_⟩⟩,
    (hfound ⟨1⟩ "Columns" renamed).mpr ⟨List.mem_singleton_self _, Or.inl ⟨rfl, rfl⟩⟩⟩
  exact ⟨[], .attributes [listed], [], rfl,
    by simp [Change.GivesKey, PairTable.lastFor, listed, renamed], nofun⟩

end Catalog

end GradedAccess
