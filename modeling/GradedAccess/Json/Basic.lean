/-!
# JSON values

`Json` keeps what a strict reader may still have to distinguish after reading:

* A number is an `integer` only if it was written as an integer literal.  A fraction, an exponent
  or the literal `-0` makes it a `real`, whose literal is kept as it stands and never evaluated.
* The text of a string literal is absent (`Text` is an option) when a surrogate escape in it
  stands alone.  Such a literal is well formed and may be skipped, but it has no text.
* The members of an object keep their order and their repetitions.  Whether a repetition is a
  fault or the last one wins is for the form being read to say.
-/

namespace GradedAccess

/-- The text of a string literal; absent when a surrogate escape in it stands alone. -/
abbrev Json.Text := Option String

/-- A JSON value as it was written, blanks between its parts apart. -/
inductive Json where
  | null
  | bool (value : Bool)
  | integer (value : Int)
  | real (literal : String)
  | string (text : Json.Text)
  | array (items : List Json)
  | object (members : List (Json.Text × Json))
  deriving Inhabited, Repr

namespace Json

/-- The string of a text. -/
def text (s : String) : Json := .string (some s)

/-- An object whose keys are all texts. -/
def record (members : List (String × Json)) : Json :=
  .object (members.map fun member => (some member.1, member.2))

mutual

/-- The value in which every object holds each key once, with the value it was given last.  This
is what remains of a value that was stored as a tree of maps before it is read into a type. -/
def collapse : Json → Json
  | .array items => .array (collapseItems items)
  | .object members => .object (collapseMembers members)
  | .null => .null
  | .bool value => .bool value
  | .integer value => .integer value
  | .real literal => .real literal
  | .string text => .string text

/-- `collapse` on every item. -/
def collapseItems : List Json → List Json
  | [] => []
  | item :: items => item.collapse :: collapseItems items

/-- `collapse` on every member that no later member of the same key replaces. -/
def collapseMembers : List (Text × Json) → List (Text × Json)
  | [] => []
  | (key, value) :: members =>
    let rest := collapseMembers members
    if rest.any (·.1 == key) then rest else (key, value.collapse) :: rest

end

end Json

end GradedAccess
