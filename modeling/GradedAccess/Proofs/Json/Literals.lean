import GradedAccess.Json.Reader
import GradedAccess.Json.Writer
import Mathlib.Data.List.Basic
import Mathlib.Data.List.TakeWhile

/-!
# Reading literals back

What the reader makes of the two kinds of literal the writer makes: string literals and bare words.

A string literal is read as numbers, one for each character, whichever way the character was
escaped.  No character is a surrogate, so nothing is joined when the numbers are turned into
characters again, and the text comes out as it went in.

A bare word goes on until a character that cannot be part of one.  The digits of an integer are
written without a leading zero, which is the one thing the strict grammar asks of them, and zero is
written without a sign, which would make it a real.
-/

namespace GradedAccess

namespace Json

/-- The state after some characters, if they can be read. -/
def State.run? (state : State) (cs : List Char) : Option State := cs.foldlM State.step state

@[simp] theorem State.run?_nil (state : State) : state.run? [] = some state := rfl

@[simp] theorem State.run?_cons (state : State) (c : Char) (cs : List Char) :
    state.run? (c :: cs) = (state.step c).bind (·.run? cs) := rfl

theorem State.run?_append (state : State) (cs cs' : List Char) :
    state.run? (cs ++ cs') = (state.run? cs).bind (·.run? cs') :=
  List.foldlM_append

/-! ## Hexadecimal digits -/

theorem hexDigit?_hexDigit {n : Nat} (h : n < 16) : hexDigit? (hexDigit n) = some n := by
  have hall : ∀ digit : Fin 16, hexDigit? (hexDigit digit) = some digit.val := by decide
  exact hall ⟨n, h⟩

/-- Four hexadecimal digits are read as the number they were written for. -/
theorem run?_hexQuad {n : Nat} (h : n < 65536) (latest : List Nat) (place : Place) :
    State.run? ⟨.hex latest 0 4, place⟩ (hexQuad n) = some ⟨.quoted (n :: latest), place⟩ := by
  have hdigit : ∀ k : Nat, hexDigit? (hexDigit (k % 16)) = some (k % 16) := fun k =>
    hexDigit?_hexDigit (Nat.mod_lt k (by decide))
  have hread : State.run? ⟨.hex latest 0 4, place⟩ (hexQuad n) =
      some ⟨.quoted ((16 * (16 * (16 * (16 * 0 + n / 4096 % 16) + n / 256 % 16) + n / 16 % 16) +
        n % 16) :: latest), place⟩ := by
    simp [hexQuad, State.step, hdigit]
  have hvalue : 16 * (16 * (16 * (16 * 0 + n / 4096 % 16) + n / 256 % 16) + n / 16 % 16) + n % 16 =
      n := by omega
  rw [hread, hvalue]

/-! ## String literals -/

/-- A character is no surrogate. -/
theorem not_surrogate (c : Char) :
    isHighSurrogate c.toNat = false ∧ isLowSurrogate c.toNat = false := by
  have hvalid : c.toNat < 0xD800 ∨ 0xDFFF < c.toNat ∧ c.toNat < 0x110000 := c.valid
  simp only [isHighSurrogate, isLowSurrogate, Bool.and_eq_false_iff, decide_eq_false_iff_not]
  omega

/-- Numbers that are the characters of a text are joined to that text. -/
theorem textOfUnits_toNat (text : String) :
    textOfUnits (text.toList.map Char.toNat) = some text := by
  have hjoin : ∀ cs : List Char, joinUnits (cs.map Char.toNat) = some cs := by
    intro cs
    induction cs with
    | nil => rfl
    | cons c cs ih =>
      obtain ⟨hhigh, hlow⟩ := not_surrogate c
      rw [List.map_cons, joinUnits.eq_def]
      simp only [hhigh, hlow, Bool.false_eq_true, if_false, ih, Option.map_some, Char.ofNat_toNat]
  rw [textOfUnits, hjoin, Option.map_some, String.ofList_toList]

/-- An escape with four digits is read as the number they stand for. -/
theorem run?_unicodeEscape {n : Nat} (h : n < 65536) (latest : List Nat) (place : Place) :
    State.run? ⟨.quoted latest, place⟩ ('\\' :: 'u' :: hexQuad n) =
      some ⟨.quoted (n :: latest), place⟩ := by
  have hbackslash : State.step ⟨.quoted latest, place⟩ '\\' = some ⟨.escaped latest, place⟩ := rfl
  have hletter : State.step ⟨.escaped latest, place⟩ 'u' = some ⟨.hex latest 0 4, place⟩ := rfl
  rw [State.run?_cons, hbackslash, Option.bind_some, State.run?_cons, hletter, Option.bind_some,
    run?_hexQuad h]

/-- A character inside a string literal is read as its number, escaped or not. -/
theorem run?_escaped (c : Char) (latest : List Nat) (place : Place) :
    State.run? ⟨.quoted latest, place⟩ (escaped c) =
      some ⟨.quoted (c.toNat :: latest), place⟩ := by
  -- one case for each escape the writer knows, and the last for a character that needs none
  rw [escaped]
  split
  · next h => subst h; rfl
  split
  · next h => subst h; rfl
  split
  · next h => subst h; rfl
  split
  · next h => subst h; rfl
  split
  · next h => subst h; rfl
  split
  · next h => subst h; rfl
  split
  · next h => subst h; rfl
  split
  · next h => exact run?_unicodeEscape (by omega) latest place
  · next hquote hbackslash _ _ _ _ _ hcontrol =>
    simp [State.step, hquote, hbackslash, hcontrol]

theorem run?_flatMap_escaped (cs : List Char) (latest : List Nat) (place : Place) :
    State.run? ⟨.quoted latest, place⟩ (cs.flatMap escaped) =
      some ⟨.quoted ((cs.map Char.toNat).reverse ++ latest), place⟩ := by
  induction cs generalizing latest with
  | nil => rfl
  | cons c cs ih =>
    rw [List.flatMap_cons, State.run?_append, run?_escaped, Option.bind_some, ih, List.map_cons,
      List.reverse_cons, List.append_assoc]
    rfl

/-- A string literal is read as the text it was written for, wherever a text may stand. -/
theorem run?_quoted (text : String) (place : Place) :
    State.run? ⟨.between, place⟩ (quoted (some text)) =
      (place.takeText (some text)).map (⟨.between, ·⟩) := by
  have hopen : State.step ⟨.between, place⟩ '"' = some ⟨.quoted [], place⟩ := rfl
  have hclose : ∀ latest : List Nat, State.step ⟨.quoted latest, place⟩ '"' =
      (place.takeText (textOfUnits latest.reverse)).map (⟨.between, ·⟩) := fun _ => rfl
  have hquoted : quoted (some text) = '"' :: (text.toList.flatMap escaped ++ ['"']) := rfl
  rw [hquoted, State.run?_cons, hopen, Option.bind_some, State.run?_append,
    run?_flatMap_escaped, Option.bind_some, State.run?_cons, hclose, List.append_nil,
    List.reverse_reverse, textOfUnits_toNat]
  cases place.takeText (some text) <;> rfl

/-! ## Bare words -/

/-- Whether a character can be part of a bare word. -/
def isWordChar (c : Char) : Bool := !(State.isGap c || State.isMark c || c == '"')

/-- A bare word goes on as long as its characters do. -/
theorem run?_word {cs : List Char} (h : ∀ c ∈ cs, isWordChar c = true) (latest : List Char)
    (place : Place) :
    State.run? ⟨.word latest, place⟩ cs = some ⟨.word (cs.reverse ++ latest), place⟩ := by
  induction cs generalizing latest with
  | nil => rfl
  | cons c cs ih =>
    rw [List.forall_mem_cons, isWordChar, Bool.not_eq_true'] at h
    have hstep : State.step ⟨.word latest, place⟩ c = some ⟨.word (c :: latest), place⟩ := by
      simp only [State.step, h.1, Bool.false_eq_true, if_false]
    rw [State.run?_cons, hstep, Option.bind_some, ih h.2, List.reverse_cons, List.append_assoc]
    rfl

/-- A bare word is read from its first character on. -/
theorem run?_bare {c : Char} {cs : List Char} (h : ∀ c' ∈ c :: cs, isWordChar c' = true)
    (place : Place) :
    State.run? ⟨.between, place⟩ (c :: cs) = some ⟨.word (c :: cs).reverse, place⟩ := by
  rw [List.forall_mem_cons] at h
  have hfirst := h.1
  rw [isWordChar, Bool.not_eq_true', Bool.or_eq_false_iff, Bool.or_eq_false_iff] at hfirst
  obtain ⟨⟨hgap, hmark⟩, hquote⟩ := hfirst
  have hopen : State.step ⟨.between, place⟩ c = some ⟨.word [c], place⟩ := by
    simp only [State.step, State.open?, hgap, hmark, hquote, Bool.false_eq_true, if_false]
  rw [State.run?_cons, hopen, Option.bind_some, run?_word h.2, List.reverse_cons]

theorem isWordChar_of_isDigit {c : Char} (h : c.isDigit = true) : isWordChar c = true := by
  have hne : ∀ other : Char, other.isDigit = false → (c == other) = false := by
    intro other hother
    rw [beq_eq_false_iff_ne]
    rintro rfl
    rw [h] at hother
    cases hother
  simp only [isWordChar, State.isGap, State.isMark]
  rw [hne ' ' rfl, hne '\t' rfl, hne '\n' rfl, hne '\r' rfl, hne '[' rfl, hne ']' rfl,
    hne '\x7b' rfl, hne '\x7d' rfl, hne ',' rfl, hne ':' rfl, hne '"' rfl]
  rfl

/-! ## Integers -/

/-- The digits of a number other than zero do not begin with a zero. -/
theorem head?_toDigits_ne {n : Nat} (h : n ≠ 0) : (Nat.toDigits 10 n).head? ≠ some '0' := by
  induction n using Nat.strongRecOn with
  | ind n ih =>
    rw [Nat.toDigits_eq_if (by decide)]
    split
    · next hlt =>
      have hall : ∀ digit : Fin 10, digit.val ≠ 0 → Nat.digitChar digit ≠ '0' := by decide
      rw [List.head?_cons, ne_eq, Option.some.injEq]
      exact hall ⟨n, hlt⟩ h
    · next hge =>
      have hpos : n / 10 ≠ 0 := by omega
      rw [List.head?_append_of_ne_nil _ Nat.toDigits_ne_nil]
      exact ih (n / 10) (by omega) hpos

/-- The digits of a number can be the whole part of a number literal. -/
theorem isWhole_toDigits (n : Nat) : isWhole (Nat.toDigits 10 n) = true := by
  by_cases hzero : n = 0
  · subst hzero
    rfl
  · have hhead := head?_toDigits_ne hzero
    have hnil : Nat.toDigits 10 n ≠ [] := Nat.toDigits_ne_nil
    revert hhead hnil
    generalize Nat.toDigits 10 n = digits
    intro hhead hnil
    rw [isWhole.eq_def]
    split
    · exact absurd rfl hnil
    · exact absurd rfl hhead
    · rfl

theorem digitsValue_toDigits (n : Nat) : digitsValue (Nat.toDigits 10 n) = n :=
  Nat.ofDigitChars_ten_toDigits

theorem isDigit_of_mem_toDigits {n : Nat} {c : Char} (h : c ∈ Nat.toDigits 10 n) :
    c.isDigit = true :=
  Nat.isDigit_of_mem_toDigits (by decide) (by decide) h

/-- Digits that nothing follows are all whole part. -/
theorem takeWhile_toDigits (n : Nat) :
    (Nat.toDigits 10 n).takeWhile Char.isDigit = Nat.toDigits 10 n ∧
      (Nat.toDigits 10 n).dropWhile Char.isDigit = [] := by
  constructor
  · rw [List.takeWhile_eq_self_iff]
    exact fun _ => isDigit_of_mem_toDigits
  · rw [List.dropWhile_eq_nil_iff]
    exact fun _ => isDigit_of_mem_toDigits

/-- The digits of a number are read as that number. -/
theorem number?_toDigits (n : Nat) : number? (Nat.toDigits 10 n) = some (.integer n) := by
  have hsign : splitSign (Nat.toDigits 10 n) = (false, Nat.toDigits 10 n) := by
    have hdigits : ∀ c ∈ Nat.toDigits 10 n, c.isDigit = true := fun _ => isDigit_of_mem_toDigits
    revert hdigits
    generalize Nat.toDigits 10 n = digits
    intro hdigits
    rw [splitSign.eq_def]
    split
    · exact absurd (hdigits '-' List.mem_cons_self) (by decide)
    · rfl
  obtain ⟨hwhole, htail⟩ := takeWhile_toDigits n
  simp [number?, hsign, hwhole, htail, isWhole_toDigits, isTail, isScale, digitsValue_toDigits]

/-- The digits of a number other than zero, after a sign, are read as its negative. -/
theorem number?_dash_toDigits {n : Nat} (h : n ≠ 0) :
    number? ('-' :: Nat.toDigits 10 n) = some (.integer (-n)) := by
  obtain ⟨hwhole, htail⟩ := takeWhile_toDigits n
  have hzero : Nat.toDigits 10 n ≠ ['0'] := fun heq => head?_toDigits_ne h (by rw [heq]; rfl)
  simp [number?, splitSign, hwhole, htail, isWhole_toDigits, isTail, isScale,
    digitsValue_toDigits, hzero]

end Json

end GradedAccess
