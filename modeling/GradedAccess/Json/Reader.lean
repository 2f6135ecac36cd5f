import GradedAccess.Json.Basic

/-!
# Reading JSON

The reader is a fold: `State.step` takes one character, `State.finish` closes the input, and
`Json.read?` runs the one over the text and then the other.  A state has two halves.

* `Scan` is the token being read: nothing, the inside of a string literal, or a bare word, which
  is a number, `true`, `false` or `null`.
* `Place` is where the grammar stands: what may come next and which containers are still open.
  A place holds exactly the containers its constructor needs, so a `]` that closes an object or a
  `,` before any item has no place to go to.

Since nothing recurses into a nested value, a value may be nested to any depth.  The grammar is
the strict one: one value, blanks (space, tab, line feed, carriage return) between tokens only,
no control character inside a string literal, and four hexadecimal digits after `\u`.
-/

namespace GradedAccess

namespace Json

/-! ## Numbers -/

/-- The value of a run of decimal digits. -/
def digitsValue (digits : List Char) : Nat :=
  digits.foldl (fun value c => 10 * value + (c.toNat - '0'.toNat)) 0

/-- Whether the characters are an exponent's digits, with or without a sign. -/
def isExponent : List Char → Bool
  | '+' :: digits => !digits.isEmpty && digits.all Char.isDigit
  | '-' :: digits => !digits.isEmpty && digits.all Char.isDigit
  | digits => !digits.isEmpty && digits.all Char.isDigit

/-- Whether the characters are nothing or an exponent. -/
def isScale : List Char → Bool
  | [] => true
  | 'e' :: cs => isExponent cs
  | 'E' :: cs => isExponent cs
  | _ => false

/-- Whether the characters can follow the whole part of a number: a fraction, an exponent, both or
neither. -/
def isTail : List Char → Bool
  | '.' :: cs => (cs.head?.any Char.isDigit) && isScale (cs.dropWhile Char.isDigit)
  | cs => isScale cs

/-- Whether digits are the whole part of a number: not empty, and without a leading zero. -/
def isWhole : List Char → Bool
  | [] => false
  | '0' :: _ :: _ => false
  | _ => true

/-- The sign of a number literal and what follows it. -/
def splitSign : List Char → Bool × List Char
  | '-' :: cs => (true, cs)
  | cs => (false, cs)

/-- The number a literal stands for.  Only a literal that is all whole part is an integer, and
`-0` is none. -/
def number? (literal : List Char) : Option Json :=
  let (negative, body) := splitSign literal
  let whole := body.takeWhile Char.isDigit
  let tail := body.dropWhile Char.isDigit
  if isWhole whole && isTail tail then
    if !tail.isEmpty || (negative && whole == ['0']) then some (.real (String.ofList literal))
    else if negative then some (.integer (-(digitsValue whole : Int)))
    else some (.integer (digitsValue whole))
  else none

/-- The value of a bare word. -/
def bare? (word : List Char) : Option Json :=
  if word = "null".toList then some .null
  else if word = "true".toList then some (.bool true)
  else if word = "false".toList then some (.bool false)
  else number? word

/-! ## String literals -/

/-- The value of a hexadecimal digit. -/
def hexDigit? (c : Char) : Option Nat :=
  if c.isDigit then some (c.toNat - '0'.toNat)
  else if 'a' ≤ c && c ≤ 'f' then some (c.toNat - 'a'.toNat + 10)
  else if 'A' ≤ c && c ≤ 'F' then some (c.toNat - 'A'.toNat + 10)
  else none

/-- The character a one-letter escape stands for. -/
def escape? : Char → Option Char
  | '"' => some '"'
  | '\\' => some '\\'
  | '/' => some '/'
  | 'b' => some '\x08'
  | 'f' => some '\x0c'
  | 'n' => some '\n'
  | 'r' => some '\r'
  | 't' => some '\t'
  | _ => none

/-- Whether a number is the first half of a surrogate pair. -/
def isHighSurrogate (unit : Nat) : Bool := 0xD800 ≤ unit && unit < 0xDC00

/-- Whether a number is the second half of a surrogate pair. -/
def isLowSurrogate (unit : Nat) : Bool := 0xDC00 ≤ unit && unit < 0xE000

/-- The characters of a string literal from the numbers it was read as, surrogate pairs joined;
absent when a surrogate stands alone. -/
def joinUnits : List Nat → Option (List Char)
  | [] => some []
  | unit :: units =>
    if isHighSurrogate unit then
      match units with
      | low :: units =>
        if isLowSurrogate low then
          (joinUnits units).map
            (Char.ofNat (0x10000 + 0x400 * (unit - 0xD800) + (low - 0xDC00)) :: ·)
        else none
      | [] => none
    else if isLowSurrogate unit then none
    else (joinUnits units).map (Char.ofNat unit :: ·)

/-- The text of a string literal from the numbers it was read as. -/
def textOfUnits (units : List Nat) : Text :=
  (joinUnits units).map String.ofList

/-! ## Where the grammar stands -/

/-- An open container that a value is about to be put into. -/
inductive Frame where
  | items (earlier : List Json)
  | members (earlier : List (Text × Json)) (key : Text)

/-- Where the grammar stands.  Finished items and members are held latest first. -/
inductive Place where
  | value (frames : List Frame)
  | firstItem (frames : List Frame)
  | firstKey (frames : List Frame)
  | nextKey (earlier : List (Text × Json)) (frames : List Frame)
  | colon (earlier : List (Text × Json)) (key : Text) (frames : List Frame)
  | afterItem (items : List Json) (frames : List Frame)
  | afterMember (members : List (Text × Json)) (frames : List Frame)
  | ended (result : Json)

namespace Place

/-- The place after a whole value has been put into the innermost open container. -/
def put (value : Json) : List Frame → Place
  | [] => .ended value
  | .items earlier :: frames => .afterItem (value :: earlier) frames
  | .members earlier key :: frames => .afterMember ((key, value) :: earlier) frames

/-- The open containers around a value that may start here. -/
def room : Place → Option (List Frame)
  | .value frames => some frames
  | .firstItem frames => some (.items [] :: frames)
  | _ => none

/-- The place after a value without parts. -/
def takeScalar (place : Place) (value : Json) : Option Place :=
  place.room.map (put value)

/-- The place after a string literal, which is a key where a key is due. -/
def takeText (text : Text) : Place → Option Place
  | .firstKey frames => some (.colon [] text frames)
  | .nextKey earlier frames => some (.colon earlier text frames)
  | place => place.takeScalar (.string text)

/-- The place after a punctuation character. -/
def takeMark (mark : Char) (place : Place) : Option Place :=
  match mark, place with
  | '[', place => place.room.map .firstItem
  | '{', place => place.room.map .firstKey
  | ']', .firstItem frames => some (put (.array []) frames)
  | ']', .afterItem items frames => some (put (.array items.reverse) frames)
  | '}', .firstKey frames => some (put (.object []) frames)
  | '}', .afterMember members frames => some (put (.object members.reverse) frames)
  | ',', .afterItem items frames => some (.value (.items items :: frames))
  | ',', .afterMember members frames => some (.nextKey members frames)
  | ':', .colon earlier key frames => some (.value (.members earlier key :: frames))
  | _, _ => none

end Place

/-! ## The fold over the characters -/

/-- The token being read.  A string literal is held as numbers, latest first: code points, and the
values of `\u` escapes as they were written. -/
inductive Scan where
  | between
  | word (latest : List Char)
  | quoted (latest : List Nat)
  | escaped (latest : List Nat)
  | hex (latest : List Nat) (value : Nat) (digitsLeft : Nat)

/-- A reader in the middle of a text. -/
structure State where
  scan : Scan
  place : Place

namespace State

/-- The state before the first character. -/
def start : State := ⟨.between, .value []⟩

/-- Whether a character may stand between two tokens. -/
def isGap (c : Char) : Bool := c == ' ' || c == '\t' || c == '\n' || c == '\r'

/-- Whether a character is a token of its own. -/
def isMark (c : Char) : Bool :=
  c == '[' || c == ']' || c == '\x7b' || c == '\x7d' || c == ',' || c == ':'

/-- One character at a place where no token is open. -/
def open? (place : Place) (c : Char) : Option State :=
  if isGap c then some ⟨.between, place⟩
  else if isMark c then (place.takeMark c).map (⟨.between, ·⟩)
  else if c == '"' then some ⟨.quoted [], place⟩
  else some ⟨.word [c], place⟩

/-- The place once a bare word has ended. -/
def closeWord (latest : List Char) (place : Place) : Option Place :=
  (bare? latest.reverse).bind place.takeScalar

/-- One character. -/
def step (state : State) (c : Char) : Option State :=
  match state.scan with
  | .between => open? state.place c
  | .word latest =>
    if isGap c || isMark c || c == '"' then (closeWord latest state.place).bind (open? · c)
    else some ⟨.word (c :: latest), state.place⟩
  | .quoted latest =>
    if c == '"' then (state.place.takeText (textOfUnits latest.reverse)).map (⟨.between, ·⟩)
    else if c == '\\' then some ⟨.escaped latest, state.place⟩
    else if c.toNat < 0x20 then none
    else some ⟨.quoted (c.toNat :: latest), state.place⟩
  | .escaped latest =>
    if c == 'u' then some ⟨.hex latest 0 4, state.place⟩
    else (escape? c).map fun meant => ⟨.quoted (meant.toNat :: latest), state.place⟩
  | .hex latest value digitsLeft =>
    (hexDigit? c).map fun digit =>
      let value := 16 * value + digit
      if digitsLeft ≤ 1 then ⟨.quoted (value :: latest), state.place⟩
      else ⟨.hex latest value (digitsLeft - 1), state.place⟩

/-- The value of a text that ends here. -/
def finish (state : State) : Option Json :=
  match state.scan, state.place with
  | .between, .ended result => some result
  | .word latest, place =>
    match closeWord latest place with
    | some (.ended result) => some result
    | _ => none
  | _, _ => none

end State

/-- The one value a text holds, if it is well formed. -/
def read? (text : String) : Option Json :=
  (text.toList.foldlM State.step State.start).bind State.finish

end Json

end GradedAccess
