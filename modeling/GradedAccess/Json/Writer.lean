import GradedAccess.Json.Basic

/-!
# Writing JSON

The compact form: no blank anywhere, the members of an object in the order they are held.  Inside
a string literal only what has to be escaped is: the quotation mark, the backslash and the
characters below U+0020.  Five of those have escapes of one letter, the others are written with
four lower-case hexadecimal digits.  Everything else stands for itself.
-/

namespace GradedAccess

namespace Json

/-- The lower-case hexadecimal digit of a number below sixteen. -/
def hexDigit (n : Nat) : Char :=
  if n < 10 then Char.ofNat ('0'.toNat + n) else Char.ofNat ('a'.toNat + (n - 10))

/-- A number below 65536 in four hexadecimal digits. -/
def hexQuad (n : Nat) : List Char :=
  [hexDigit (n / 4096 % 16), hexDigit (n / 256 % 16), hexDigit (n / 16 % 16), hexDigit (n % 16)]

/-- A character as it is written inside a string literal. -/
def escaped (c : Char) : List Char :=
  if c = '"' then ['\\', '"']
  else if c = '\\' then ['\\', '\\']
  else if c = '\x08' then ['\\', 'b']
  else if c = '\x0c' then ['\\', 'f']
  else if c = '\n' then ['\\', 'n']
  else if c = '\r' then ['\\', 'r']
  else if c = '\t' then ['\\', 't']
  else if c.toNat < 0x20 then '\\' :: 'u' :: hexQuad c.toNat
  else [c]

/-- A string literal.  A literal without a text is written as the surrogate escape that leaves it
without one. -/
def quoted : Text → List Char
  | some text => '"' :: (text.toList.flatMap escaped ++ ['"'])
  | none => "\"\\ud800\"".toList

mutual

/-- The characters of a value in compact form. -/
def chars : Json → List Char
  | .null => "null".toList
  | .bool true => "true".toList
  | .bool false => "false".toList
  | .integer value => (toString value).toList
  | .real literal => literal.toList
  | .string text => quoted text
  | .array items => '[' :: (itemChars items ++ [']'])
  | .object members => '\x7b' :: (memberChars members ++ ['\x7d'])

/-- Items with a comma between any two. -/
def itemChars : List Json → List Char
  | [] => []
  | [item] => item.chars
  | item :: next :: items => item.chars ++ ',' :: itemChars (next :: items)

/-- Members with a comma between any two. -/
def memberChars : List (Text × Json) → List Char
  | [] => []
  | [(key, value)] => quoted key ++ ':' :: value.chars
  | (key, value) :: next :: members =>
    quoted key ++ ':' :: (value.chars ++ ',' :: memberChars (next :: members))

end

/-- A value in compact form. -/
def write (value : Json) : String := String.ofList value.chars

end Json

end GradedAccess
