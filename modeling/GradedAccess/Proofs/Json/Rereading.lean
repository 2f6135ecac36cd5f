import GradedAccess.Proofs.Json.Literals

/-!
# Reading back what was written

The text that a JSON value is written as is read as that value (`read?_write`).  It holds of the
values that programs make, in which every string has a text and every number is an integer: `Plain`.
Members of an object may repeat a key, since a value keeps all of them.

The proof follows the writer and never looks at more of the reader than the place it has got to.
`Place.Leads` says that some characters lead from one place of the grammar to another.  What makes
it compose is that a bare word, such as a number, is still open when its last character has been
read, and is closed by whatever comes next; so a reader is `At` a place already when it only has to
close a word to get there.  Between two values there is always a mark, and a mark closes a word.
-/

namespace GradedAccess

namespace Json

/-- Whether a value holds texts and integers only: no real number, and no string without a text. -/
inductive Plain : Json → Prop where
  | null : Plain .null
  | bool (value : Bool) : Plain (.bool value)
  | integer (value : Int) : Plain (.integer value)
  | string (s : String) : Plain (.string (some s))
  | array {items : List Json} (h : ∀ item ∈ items, Plain item) : Plain (.array items)
  | object {members : List (Text × Json)} (hkeys : ∀ member ∈ members, member.1.isSome = true)
      (hvalues : ∀ member ∈ members, Plain member.2) : Plain (.object members)

/-! ## From place to place -/

/-- Whether a reader has got to a place, or will have once the bare word it is in is closed. -/
inductive State.At : State → Place → Prop where
  | between (place : Place) : State.At ⟨.between, place⟩ place
  | word {latest : List Char} {before place : Place}
      (h : State.closeWord latest before = some place) : State.At ⟨.word latest, before⟩ place

/-- A mark closes the word before it. -/
theorem State.At.step_mark {state : State} {place : Place} (h : state.At place) {mark : Char}
    (hmark : State.isMark mark = true) :
    state.step mark = (place.takeMark mark).map (⟨.between, ·⟩) := by
  have hgap : State.isGap mark = false := by
    simp only [State.isMark, Bool.or_eq_true, beq_iff_eq] at hmark
    rcases hmark with ((((rfl | rfl) | rfl) | rfl) | rfl) | rfl <;> rfl
  have hopen : State.open? place mark = (place.takeMark mark).map (⟨.between, ·⟩) := by
    rw [State.open?, hgap, hmark]
    rfl
  cases h with
  | between => exact hopen
  | word hclose => simp only [State.step, hmark, Bool.or_true, Bool.true_or, if_true, hclose,
      Option.bind_some, hopen]

/-- The end of a text closes the word before it. -/
theorem State.At.finish {state : State} {value : Json} (h : state.At (.ended value)) :
    state.finish = some value := by
  cases h with
  | between => rfl
  | word hclose => simp only [State.finish, hclose]

/-- Whether some characters lead from one place to another. -/
def Place.Leads (place : Place) (cs : List Char) (place' : Place) : Prop :=
  ∃ state, State.run? ⟨.between, place⟩ cs = some state ∧ state.At place'

variable {place place' next last : Place} {c : Char} {cs cs' : List Char} {frames : List Frame}

theorem Place.leads_nil (place : Place) : place.Leads [] place :=
  ⟨_, rfl, .between place⟩

/-- Characters, a mark, and more characters. -/
theorem Place.Leads.mark (h : place.Leads cs place') (hmark : State.isMark c = true)
    (htake : place'.takeMark c = some next) (h' : next.Leads cs' last) :
    place.Leads (cs ++ c :: cs') last := by
  obtain ⟨state, hrun, hat⟩ := h
  obtain ⟨state', hrun', hat'⟩ := h'
  refine ⟨state', ?_, hat'⟩
  rw [State.run?_append, hrun, Option.bind_some, State.run?_cons, hat.step_mark hmark, htake,
    Option.map_some, Option.bind_some, hrun']

/-- A mark, and more characters. -/
theorem Place.leads_mark (hmark : State.isMark c = true)
    (htake : place.takeMark c = some next) (h : next.Leads cs last) :
    place.Leads (c :: cs) last :=
  place.leads_nil.mark hmark htake h

/-- A string literal leads where its text does. -/
theorem Place.leads_quoted {text : String} (h : place.takeText (some text) = some place') :
    place.Leads (quoted (some text)) place' := by
  refine ⟨⟨.between, place'⟩, ?_, .between place'⟩
  rw [run?_quoted, h, Option.map_some]

/-- A bare word leads where its value does. -/
theorem Place.leads_bare {value : Json} (hroom : place.room = some frames)
    (hchars : ∀ c' ∈ c :: cs, isWordChar c' = true) (hvalue : bare? (c :: cs) = some value) :
    place.Leads (c :: cs) (Place.put value frames) := by
  refine ⟨_, run?_bare hchars place, .word ?_⟩
  rw [State.closeWord, List.reverse_reverse, hvalue, Option.bind_some, Place.takeScalar, hroom,
    Option.map_some]

/-! ## Values without parts -/

/-- Whether the text of a value is read as the value wherever a value may stand. -/
def RereadAsPart (value : Json) : Prop :=
  ∀ ⦃place : Place⦄ ⦃frames : List Frame⦄, place.room = some frames →
    place.Leads value.chars (Place.put value frames)

theorem reread_null : RereadAsPart .null := fun _ _ hroom =>
  Place.leads_bare hroom (List.all_eq_true.mp rfl) rfl

theorem reread_bool (value : Bool) : RereadAsPart (.bool value) := by
  intro place frames hroom
  cases value with
  | true => exact Place.leads_bare hroom (List.all_eq_true.mp rfl) rfl
  | false => exact Place.leads_bare hroom (List.all_eq_true.mp rfl) rfl

theorem reread_string (s : String) : RereadAsPart (.string (some s)) := by
  intro place frames hroom
  refine Place.leads_quoted ?_
  cases place with
  | value | firstItem => exact congrArg (Option.map (Place.put (.string (some s)))) hroom
  | _ => cases hroom

/-- A word that is a number literal is no name. -/
theorem bare?_of_number? (h : ∀ c' ∈ c :: cs, c' = '-' ∨ c'.isDigit = true) :
    bare? (c :: cs) = number? (c :: cs) := by
  have hne : ∀ name : List Char, (name.head?.all fun c' => c' != '-' && !c'.isDigit) = true →
      c :: cs ≠ name := by
    rintro _ hname rfl
    rw [List.head?_cons, Option.all_some, Bool.and_eq_true, bne_iff_ne, Bool.not_eq_true'] at hname
    rcases h c List.mem_cons_self with hdash | hdigit
    · exact hname.1 hdash
    · rw [hname.2] at hdigit
      cases hdigit
  rw [bare?, if_neg (hne _ rfl), if_neg (hne _ rfl), if_neg (hne _ rfl)]

/-- A literal of digits and a sign is a bare word. -/
theorem leads_number {word : List Char} {value : Json} (hroom : place.room = some frames)
    (hnil : word ≠ []) (h : ∀ c ∈ word, c = '-' ∨ c.isDigit = true)
    (hvalue : number? word = some value) : place.Leads word (Place.put value frames) := by
  cases word with
  | nil => exact absurd rfl hnil
  | cons c cs =>
    refine Place.leads_bare hroom (fun c' hmem => ?_) ((bare?_of_number? h).trans hvalue)
    rcases h c' hmem with rfl | hdigit
    · rfl
    · exact isWordChar_of_isDigit hdigit

theorem reread_integer (value : Int) : RereadAsPart (.integer value) := by
  intro place frames hroom
  cases value with
  | ofNat n =>
    have hchars : (Json.integer (.ofNat n)).chars = Nat.toDigits 10 n := by
      rw [chars]
      exact String.toList_ofList
    rw [hchars]
    exact leads_number hroom Nat.toDigits_ne_nil
      (fun c hmem => Or.inr (isDigit_of_mem_toDigits hmem)) (number?_toDigits n)
  | negSucc n =>
    have hchars : (Json.integer (.negSucc n)).chars = '-' :: Nat.toDigits 10 (n + 1) := by
      rw [chars]
      exact String.toList_append.trans (congrArg ('-' :: ·) String.toList_ofList)
    rw [hchars]
    refine leads_number hroom (List.cons_ne_nil _ _) (fun c hmem => ?_)
      (number?_dash_toDigits (Nat.succ_ne_zero n))
    exact (List.mem_cons.mp hmem).imp id isDigit_of_mem_toDigits

/-! ## Arrays and objects -/

/-- Items are read one after another, the latest first. -/
theorem leads_items {item : Json} {items : List Json}
    (h : ∀ value ∈ item :: items, RereadAsPart value) {earlier : List Json}
    (hroom : place.room = some (.items earlier :: frames)) :
    place.Leads (itemChars (item :: items))
      (.afterItem ((item :: items).reverse ++ earlier) frames) := by
  induction items generalizing item earlier place with
  | nil =>
    rw [itemChars]
    exact h item List.mem_cons_self hroom
  | cons next items ih =>
    rw [List.forall_mem_cons] at h
    rw [itemChars, List.reverse_cons, List.append_assoc]
    exact (h.1 hroom).mark rfl rfl (ih h.2 rfl)

theorem reread_array {items : List Json} (h : ∀ item ∈ items, RereadAsPart item) :
    RereadAsPart (.array items) := by
  intro place frames hroom
  have hopen : place.takeMark '[' = some (.firstItem frames) := by
    rw [Place.takeMark, hroom, Option.map_some]
  rw [chars]
  refine Place.leads_mark rfl hopen ?_
  cases items with
  | nil => exact Place.leads_mark rfl rfl (Place.leads_nil _)
  | cons item items =>
    refine (leads_items h rfl).mark rfl ?_ (Place.leads_nil _)
    rw [Place.takeMark, List.append_nil, List.reverse_reverse]

/-- A member is read as its key and its value. -/
theorem leads_member {text : String} {value : Json} (h : RereadAsPart value)
    {earlier : List (Text × Json)}
    (hroom : ∀ text, place.takeText text = some (.colon earlier text frames)) :
    place.Leads (quoted (some text) ++ ':' :: value.chars)
      (.afterMember ((some text, value) :: earlier) frames) := by
  have hvalue : (Place.value (.members earlier (some text) :: frames)).room =
      some (.members earlier (some text) :: frames) := rfl
  exact (Place.leads_quoted (hroom _)).mark rfl rfl (h hvalue)

/-- Members are read one after another, the latest first. -/
theorem leads_members {member : Text × Json} {members : List (Text × Json)}
    (hkeys : ∀ m ∈ member :: members, m.1.isSome = true)
    (h : ∀ m ∈ member :: members, RereadAsPart m.2) {earlier : List (Text × Json)}
    (hroom : ∀ text, place.takeText text = some (.colon earlier text frames)) :
    place.Leads (memberChars (member :: members))
      (.afterMember ((member :: members).reverse ++ earlier) frames) := by
  induction members generalizing member earlier place with
  | nil =>
    obtain ⟨key, value⟩ := member
    obtain ⟨text, rfl⟩ := Option.isSome_iff_exists.mp (hkeys _ List.mem_cons_self)
    rw [memberChars]
    exact leads_member (h _ List.mem_cons_self) hroom
  | cons next members ih =>
    obtain ⟨key, value⟩ := member
    obtain ⟨text, rfl⟩ := Option.isSome_iff_exists.mp (hkeys _ List.mem_cons_self)
    rw [List.forall_mem_cons] at hkeys h
    rw [memberChars, List.reverse_cons, List.append_assoc, ← List.cons_append,
      ← List.append_assoc]
    exact (leads_member h.1 hroom).mark rfl rfl (ih hkeys.2 h.2 fun _ => rfl)

theorem reread_object {members : List (Text × Json)}
    (hkeys : ∀ member ∈ members, member.1.isSome = true)
    (h : ∀ member ∈ members, RereadAsPart member.2) : RereadAsPart (.object members) := by
  intro place frames hroom
  have hopen : place.takeMark '\x7b' = some (.firstKey frames) := by
    rw [Place.takeMark, hroom, Option.map_some]
  rw [chars]
  refine Place.leads_mark rfl hopen ?_
  cases members with
  | nil => exact Place.leads_mark rfl rfl (Place.leads_nil _)
  | cons member members =>
    refine (leads_members hkeys h fun _ => rfl).mark rfl ?_ (Place.leads_nil _)
    rw [Place.takeMark, List.append_nil, List.reverse_reverse]

/-! ## Whole texts -/

/-- Every part of a plain value is read back where it stands. -/
theorem Plain.reread {value : Json} (h : value.Plain) : RereadAsPart value := by
  induction h with
  | null => exact reread_null
  | bool value => exact reread_bool value
  | integer value => exact reread_integer value
  | string s => exact reread_string s
  | array _ ih => exact reread_array ih
  | object hkeys _ ih => exact reread_object hkeys ih

/-- **What was written is read back.** -/
theorem read?_write {value : Json} (h : value.Plain) : read? value.write = some value := by
  have hstart : (Place.value []).room = some [] := rfl
  obtain ⟨state, hrun, hat⟩ := h.reread hstart
  rw [State.run?] at hrun
  rw [read?, write, String.toList_ofList, State.start, hrun, Option.bind_some]
  exact hat.finish

end Json

end GradedAccess
