import GradedAccess.Text.Numeral
import Mathlib.Data.Nat.Digits.Defs

/-!
# What is read as a number

A numeral is one or more ASCII digits, perhaps after a `+`.  It stands for the number that has these
digits, the most significant one first (`Writes`).  Leading zeros are digits like others, so a
number has many numerals.

Reading goes from left to right and gives up as soon as the digits so far are too large.  Nothing is
lost by that, because a number only grows with every further digit.  So a text is read exactly if it
is a numeral of a number below the bound, and it is read as this number (`readNumeral_eq_ok_iff`).
-/

namespace GradedAccess

namespace Numeral

variable {bound value n : Nat} {c : Char} {cs : List Char} {text : String}

/-! ## Digits -/

/-- The digit a character stands for. -/
def digitOf (c : Char) : Nat := c.toNat - '0'.toNat

/-- The number that has some digits, the most significant one first. -/
def numberOf (digits : List Char) : Nat := Nat.ofDigits 10 (digits.reverse.map digitOf)

@[simp] theorem numberOf_nil : numberOf [] = 0 := rfl

end Numeral

open Numeral

/-- Leading zeros do not make a number too large. -/
example : readNumeral 256 "+0000255" = .ok 255 ∧ readNumeral 256 "256" = .error .tooLarge := by
  decide

end GradedAccess
