/-!
# Records that grow

A record of what happened grows at its end.  A statement about every entry and those before it is
proved when the entry is added, and stays true (`EachAfter`).

What an entry has begun may be undone by a later one.  Whether something begun still lasts is seen
when an entry is added, too: it has just begun, or it has lasted so far and is not undone
(`someSince_concat_iff`).
-/

namespace GradedAccess

variable {α : Type}

/-- Whether each entry of a record is in order after the ones before it. -/
def EachAfter (inOrder : List α → α → Prop) (record : List α) : Prop :=
  ∀ before entry after, record = before ++ entry :: after → inOrder before entry

theorem EachAfter.nil (inOrder : List α → α → Prop) : EachAfter inOrder [] := by
  intro before entry after h
  cases before <;> cases h

/-- Entries are in order one after another. -/
theorem EachAfter.concat {inOrder : List α → α → Prop} {record : List α} {entry : α}
    (h : EachAfter inOrder record) (hentry : inOrder record entry) :
    EachAfter inOrder (record ++ [entry]) := by
  intro before entry' after heq
  rcases List.eq_nil_or_concat after with rfl | ⟨rest, last, rfl⟩
  · obtain ⟨rfl, hlast⟩ := List.append_inj' heq rfl
    cases hlast
    exact hentry
  · refine h before entry' rest ?_
    have hassoc : record ++ [entry] = (before ++ entry' :: rest) ++ [last] := by
      rw [heq, List.append_assoc, List.cons_append, List.concat_eq_append]
    exact (List.append_inj' hassoc rfl).1

/-- Whether some entry of a record has begun something after the ones before it, and no entry since
has undone it. -/
def SomeSince (begins : List α → α → Prop) (lasts : α → Prop) (record : List α) : Prop :=
  ∃ before entry after, record = before ++ entry :: after ∧ begins before entry ∧
    ∀ later ∈ after, lasts later

theorem not_someSince_nil (begins : List α → α → Prop) (lasts : α → Prop) :
    ¬SomeSince begins lasts [] := by
  rintro ⟨before, entry, after, h, -⟩
  cases before <;> cases h

/-- What lasts after one more entry has just begun, or has lasted before and is not undone. -/
theorem someSince_concat_iff {begins : List α → α → Prop} {lasts : α → Prop} {record : List α}
    {last : α} :
    SomeSince begins lasts (record ++ [last]) ↔
      begins record last ∨ SomeSince begins lasts record ∧ lasts last := by
  constructor
  · rintro ⟨before, entry, after, heq, hbegins, hlasts⟩
    rcases List.eq_nil_or_concat after with rfl | ⟨rest, final, rfl⟩
    · obtain ⟨rfl, hlast⟩ := List.append_inj' heq rfl
      cases hlast
      exact Or.inl hbegins
    · rw [List.concat_eq_append] at heq hlasts
      rw [← List.cons_append, ← List.append_assoc] at heq
      obtain ⟨rfl, hlast⟩ := List.append_inj' heq rfl
      cases hlast
      rw [List.forall_mem_append] at hlasts
      exact Or.inr ⟨⟨before, entry, rest, rfl, hbegins, hlasts.1⟩, hlasts.2 last (by simp)⟩
  · rintro (hbegins | ⟨⟨before, entry, after, rfl, hbegins, hlasts⟩, hlast⟩)
    · exact ⟨record, last, [], rfl, hbegins, nofun⟩
    · refine ⟨before, entry, after ++ [last], by simp, hbegins, ?_⟩
      rw [List.forall_mem_append]
      refine ⟨hlasts, fun later hmem => ?_⟩
      rwa [List.mem_singleton.mp hmem]

end GradedAccess
