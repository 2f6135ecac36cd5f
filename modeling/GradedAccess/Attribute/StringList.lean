/-!
# String lists

A string list is a set written as a list: what counts is which strings it contains, but it keeps
the order and the repetitions it was given with.

Checking a list against its limits does two things at once.  It decides whether the list can be
kept at all, and it leaves a list that keeps to its limits.  There are two limits: the strings an
attribute knows (`valid`, which says nothing while it is empty) and the most a job may have
(`most`, which forbids everything when it is empty and says nothing when it is absent).  A list
longer than a limit cannot be part of it, and is emptied as a whole; otherwise the strings that
are not in both limits are dropped.
-/

namespace GradedAccess

/-- What checking a value against its limits has found and left. -/
structure Checked (α : Type) where
  /-- The value that keeps to the limits. -/
  value : α
  /-- Whether the value could be kept, apart from single entries. -/
  ok : Bool
  /-- Whether anything was dropped or lowered. -/
  changed : Bool
  deriving DecidableEq, Repr

/-- The same finding about the image of the value. -/
def Checked.map {α β : Type} (f : α → β) (c : Checked α) : Checked β :=
  ⟨f c.value, c.ok, c.changed⟩

/-- A list of strings that is meant as a set. -/
structure StringList where
  strings : List String := []
  deriving DecidableEq, Repr

namespace StringList

/-- Whether a string is in the list. -/
def contains (list : StringList) (entry : String) : Bool :=
  list.strings.contains entry

/-- Whether nothing is in the list. -/
def isEmpty (list : StringList) : Bool := list.strings.isEmpty

/-- The limit a list of valid strings sets: none while it is empty. -/
def validLimit (valid : Option StringList) : Option StringList :=
  valid.filter (!·.isEmpty)

/-- Whether the list has more entries than a limit. -/
def exceeds (list : StringList) (limit : Option StringList) : Bool :=
  limit.any fun limit => limit.strings.length < list.strings.length

/-- The entries of a list that a limit contains. -/
def within (list : StringList) (limit : Option StringList) : StringList :=
  match limit with
  | none => list
  | some limit => ⟨list.strings.filter limit.contains⟩

/-- The list kept to its limits. -/
def check (valid most : Option StringList) (list : StringList) : Checked StringList :=
  let valid := validLimit valid
  if list.exceeds most || list.exceeds valid then ⟨⟨[]⟩, false, true⟩
  else
    let kept := (list.within most).within valid
    ⟨kept, true, kept.strings.length != list.strings.length⟩

end StringList

end GradedAccess
