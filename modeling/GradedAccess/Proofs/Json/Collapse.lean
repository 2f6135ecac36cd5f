import GradedAccess.Proofs.Tables
import GradedAccess.Wire

/-!
# Values that collapsing leaves alone

A value that is kept as a tree of maps has every key once.  Collapsing it is no change
(`KeyedOnce.collapse_eq`), and what is written for an attribute value is such a value: the names of
its fields differ, and the keys of its maps do because they come from maps.
-/

namespace GradedAccess

namespace Json

/-- Whether no object of a value has a key twice. -/
inductive KeyedOnce : Json → Prop where
  | null : KeyedOnce .null
  | bool (value : Bool) : KeyedOnce (.bool value)
  | integer (value : Int) : KeyedOnce (.integer value)
  | real (literal : String) : KeyedOnce (.real literal)
  | string (text : Text) : KeyedOnce (.string text)
  | array {items : List Json} (h : ∀ item ∈ items, KeyedOnce item) : KeyedOnce (.array items)
  | object {members : List (Text × Json)} (hkeys : members.Pairwise (·.1 ≠ ·.1))
      (hvalues : ∀ member ∈ members, KeyedOnce member.2) : KeyedOnce (.object members)

/-! ## Collapsing -/

theorem collapseItems_eq {items : List Json} (h : ∀ item ∈ items, item.collapse = item) :
    collapseItems items = items := by
  induction items with
  | nil => rw [collapseItems]
  | cons item items ih =>
    rw [List.forall_mem_cons] at h
    rw [collapseItems, h.1, ih h.2]

/-- No member is replaced by a later one where all keys differ. -/
theorem collapseMembers_eq {members : List (Text × Json)} (hkeys : members.Pairwise (·.1 ≠ ·.1))
    (h : ∀ member ∈ members, member.2.collapse = member.2) : collapseMembers members = members := by
  induction members with
  | nil => rw [collapseMembers]
  | cons member members ih =>
    rw [List.forall_mem_cons] at h
    rw [List.pairwise_cons] at hkeys
    have hnone : ¬members.any (·.1 == member.1) = true := by
      rw [List.any_eq_true]
      rintro ⟨other, hother, hsame⟩
      exact hkeys.1 other hother (beq_iff_eq.mp hsame).symm
    rw [collapseMembers, ih hkeys.2 h.2, if_neg hnone, h.1]

/-- **A value that has every key once is left alone.** -/
theorem KeyedOnce.collapse_eq {value : Json} (h : value.KeyedOnce) : value.collapse = value := by
  induction h with
  | null | bool | integer | real | string => rw [collapse]
  | array _ ih => rw [collapse, collapseItems_eq ih]
  | object hkeys _ ih => rw [collapse, collapseMembers_eq hkeys ih]

/-! ## Written values -/

theorem KeyedOnce.record {members : List (String × Json)} (hkeys : members.Pairwise (·.1 ≠ ·.1))
    (h : ∀ member ∈ members, member.2.KeyedOnce) : (record members).KeyedOnce := by
  refine .object ?_ ?_
  · rw [List.pairwise_map]
    exact hkeys.imp fun hne heq => hne (Option.some.inj heq)
  · rw [List.forall_mem_map]
    exact h

/-- A map is written with every key once. -/
theorem keyedOnce_entries {α : Type} {toJson : α → Json} (h : ∀ value, (toJson value).KeyedOnce)
    (table : Std.ExtTreeMap String α) :
    (record (table.toList.map fun entry => (entry.1, toJson entry.2))).KeyedOnce := by
  refine .record ?_ ?_
  · rw [List.pairwise_map]
    exact PairTable.distinct_toList table
  · rw [List.forall_mem_map]
    exact fun entry _ => h entry.2

theorem keyedOnce_list {α : Type} {toJson : α → Json} (h : ∀ value, (toJson value).KeyedOnce)
    (values : List α) : (array (values.map toJson)).KeyedOnce := by
  refine .array ?_
  rw [List.forall_mem_map]
  exact fun value _ => h value

end Json

open Json (KeyedOnce)

theorem StringList.keyedOnce_toJson (list : StringList) : list.toJson.KeyedOnce := by
  refine .record (List.pairwise_singleton _ _) ?_
  rw [List.forall_mem_singleton]
  exact Json.keyedOnce_list (fun s => .string (some s)) list.strings

theorem JobGrades.keyedOnce_toJson (list : JobGrades) : list.toJson.KeyedOnce := by
  have hgrade : ∀ grade : Grade, (Json.ofInt32 grade).KeyedOnce := fun grade => .integer _
  refine .record ?_ ?_
  · simp
  · simp only [List.forall_mem_cons, List.not_mem_nil]
    exact ⟨.bool _, Json.keyedOnce_entries hgrade list.jobs,
      Json.keyedOnce_entries (Json.keyedOnce_list hgrade) list.grades, nofun⟩

theorem AttributeValue.keyedOnce_toJson (value : AttributeValue) : value.toJson.KeyedOnce := by
  refine .record (List.pairwise_singleton _ _) ?_
  rw [List.forall_mem_singleton]
  cases value with
  | strings list | jobs list => exact list.keyedOnce_toJson
  | grades list => exact list.keyedOnce_toJson

end GradedAccess
