/-!
# Unsigned numerals

Settings come as text.  A number is an optional `+` and then ASCII digits; no other sign, no
blank and no separator is accepted.  Reading goes from left to right and stops at the first
fault: a character that is no digit is reported before the size of the number it would have
extended, and a number that has already grown too large is reported before any later character
is looked at.  So `18446744073709551616x` is too large for 64 bits, while `1x` is no number.
-/

namespace GradedAccess

/-- Why a text is not a number below a bound. -/
inductive NumeralFault where
  | empty
  | notDigit
  | tooLarge
  deriving DecidableEq, Repr

/-- The wording of a fault, as it ends a message about a setting. -/
def NumeralFault.message : NumeralFault → String
  | .empty => "cannot parse integer from empty string"
  | .notDigit => "invalid digit found in string"
  | .tooLarge => "number too large to fit in target type"

namespace Numeral

/-- The value of an ASCII digit. -/
def digit? (c : Char) : Option Nat :=
  if c.isDigit then some (c.toNat - '0'.toNat) else none

/-- One more digit to the right of a number below `bound`. -/
def extend (bound value : Nat) (c : Char) : Except NumeralFault Nat :=
  match digit? c with
  | none => .error .notDigit
  | some d => if 10 * value + d < bound then .ok (10 * value + d) else .error .tooLarge

/-- The digits of a numeral: a leading `+` is dropped if something follows it. -/
def unsigned : List Char → List Char
  | '+' :: c :: cs => c :: cs
  | cs => cs

end Numeral

/-- The number below `bound` that a text stands for. -/
def readNumeral (bound : Nat) (text : String) : Except NumeralFault Nat :=
  if text.isEmpty then .error .empty
  else (Numeral.unsigned text.toList).foldlM (Numeral.extend bound) 0

end GradedAccess
