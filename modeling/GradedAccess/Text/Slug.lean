/-!
# Slugs and guard names

A guard name is what an access check asks for.  It has to be the same whichever way a service
spells its category and its method, so it is made of the only characters no two spellings
disagree about: the ASCII letters and digits, lowercased, with one `-` wherever anything else
stood between two of them.

`slug` writes that form in a single pass.  The writer remembers nothing but its `Place`: whether
it is still before the first word, inside a word, or in a gap that will cost one separator as
soon as another word begins.  A gap at the end therefore never costs one.

`guardName` and `attributeGuardName` are slugs of joined parts.  The parts are joined by `-`,
which is itself a gap, so an empty part disappears instead of leaving two separators in a row.
-/

namespace GradedAccess

namespace Slug

/-- Where the writer of a slug stands: before the first word, inside a word, or after a word and
past some characters that belong to none. -/
inductive Place where
  | front
  | word
  | gap
  deriving DecidableEq

/-- Skipping a character that belongs to no word: before the first word nothing changes. -/
def Place.skip : Place → Place
  | .front => .front
  | .word => .gap
  | .gap => .gap

/-- What is written between the last word and a letter that comes next. -/
def Place.separator : Place → List Char
  | .gap => ['-']
  | .front | .word => []

/-- The rest of a slug, from the place the writer has reached. -/
def writeFrom : Place → List Char → List Char
  | _, [] => []
  | place, c :: cs =>
    if c.isAlphanum then place.separator ++ c.toLower :: writeFrom .word cs
    else writeFrom place.skip cs

@[simp] theorem writeFrom_nil (place : Place) : writeFrom place [] = [] := by
  cases place <;> rfl

theorem writeFrom_cons_of_isAlphanum {c : Char} (hc : c.isAlphanum = true) (place : Place)
    (cs : List Char) :
    writeFrom place (c :: cs) = place.separator ++ c.toLower :: writeFrom .word cs := by
  simp [writeFrom, hc]

theorem writeFrom_cons_of_not_isAlphanum {c : Char} (hc : c.isAlphanum = false) (place : Place)
    (cs : List Char) : writeFrom place (c :: cs) = writeFrom place.skip cs := by
  simp [writeFrom, hc]

end Slug

/-- The ASCII letters and digits of a text, lowercased, its words joined by single `-`. -/
def slug (text : String) : String :=
  String.ofList (Slug.writeFrom .front text.toList)

/-- The name under which the permission `name` of `category` is checked. -/
def guardName (category name : String) : String :=
  slug (category ++ "-" ++ name)

/-- The name of one entry of an attribute of a permission, as it appears in flattened lists. -/
def attributeGuardName (category name key entry : String) : String :=
  slug (category ++ "-" ++ name ++ "-" ++ key ++ "-" ++ entry)

end GradedAccess
