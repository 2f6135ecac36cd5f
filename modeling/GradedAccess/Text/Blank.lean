/-!
# Blank text

Keys, job names in messages and settings are refused or ignored when nothing is written in them.
"Nothing" means the characters of the Unicode property `White_Space`, all of them: a key made of
a no-break space is as empty as one made of a tab.  The property is a short table of ranges;
zero-width characters such as U+200B are not in it.
-/

namespace GradedAccess

/-- The ranges of code points with the property `White_Space`, both ends included. -/
def whiteSpaceRanges : List (Nat × Nat) :=
  [(0x09, 0x0D), (0x20, 0x20), (0x85, 0x85), (0xA0, 0xA0), (0x1680, 0x1680), (0x2000, 0x200A),
    (0x2028, 0x2029), (0x202F, 0x202F), (0x205F, 0x205F), (0x3000, 0x3000)]

/-- Whether a character has the property `White_Space`. -/
def isWhiteSpace (c : Char) : Bool :=
  whiteSpaceRanges.any fun range => range.1 ≤ c.toNat && c.toNat ≤ range.2

/-- Whether a text holds white space only; the empty text does. -/
def isBlank (text : String) : Bool :=
  text.toList.all isWhiteSpace

/-- A text without the white space at its two ends. -/
def trimmed (text : String) : String :=
  let dropFront := text.toList.dropWhile isWhiteSpace
  String.ofList (dropFront.reverse.dropWhile isWhiteSpace).reverse

end GradedAccess
