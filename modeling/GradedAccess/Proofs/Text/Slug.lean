import GradedAccess.Text.Slug
import Mathlib

/-!
# Guard names are canonical

A slug is written in one pass, and what it is can be said without the writer: the words of a text,
lowercased, joined by single dashes (`slug_eq`).  A word is a maximal run of ASCII letters and
digits, and everything here follows from how `words` takes a text apart at a character of no word
(`words_append_cons`).

* The words of a slug are those of the text, lowercased (`spelled_slug`), so a slug is its own slug.
* A dash is a character of no word, so the words of joined parts are the words of one part after
  the other (`spelled_append_dash`).  A guard name is therefore made of the slugs of its parts, an
  empty one left out, and does not tell a part from its slug.
-/

namespace GradedAccess

namespace Slug

variable {c : Char} {cs ds w : List Char} {ws : List (List Char)}

/-! ## Words -/

/-- Whether there are letters and digits, and nothing else. -/
structure IsWord (w : List Char) : Prop where
  ne_nil : w ≠ []
  isAlphanum : ∀ c ∈ w, c.isAlphanum = true

/-- Whether a text does not go on with a letter or a digit. -/
def AtGap (cs : List Char) : Prop := ∀ c ∈ cs.head?, c.isAlphanum = false

theorem atGap_nil : AtGap [] := nofun

theorem atGap_cons (hc : c.isAlphanum = false) (cs : List Char) : AtGap (c :: cs) := by
  rintro _ ⟨⟩
  exact hc

theorem isWord_singleton (hc : c.isAlphanum = true) : IsWord [c] :=
  ⟨List.cons_ne_nil c [], List.forall_mem_singleton.mpr hc⟩

theorem IsWord.concat (h : IsWord w) (hc : c.isAlphanum = true) : IsWord (w ++ [c]) where
  ne_nil := List.concat_ne_nil c w
  isAlphanum := by
    rw [List.forall_mem_append, List.forall_mem_singleton]
    exact ⟨h.isAlphanum, hc⟩

/-- A text is empty, or it begins with a character of no word, or with a word that cannot be
longer. -/
theorem induction_on_words {motive : List Char → Prop} (cs : List Char) (nil : motive [])
    (gap : ∀ c cs, c.isAlphanum = false → motive cs → motive (c :: cs))
    (word : ∀ w cs, IsWord w → AtGap cs → motive cs → motive (w ++ cs)) : motive cs := by
  -- The word in front grows with every letter that is passed.
  suffices h : motive cs ∧ ∀ w, IsWord w → motive (w ++ cs) from h.1
  induction cs with
  | nil => exact ⟨nil, fun w hw => word w [] hw atGap_nil nil⟩
  | cons c cs ih =>
    cases hc : c.isAlphanum with
    | true =>
      refine ⟨ih.2 [c] (isWord_singleton hc), fun w hw => ?_⟩
      rw [List.append_cons]
      exact ih.2 (w ++ [c]) (hw.concat hc)
    | false =>
      have hcons := gap c cs hc ih.1
      exact ⟨hcons, fun w hw => word w (c :: cs) hw (atGap_cons hc cs) hcons⟩

/-- The words of a text: its maximal runs of ASCII letters and digits. -/
def words (cs : List Char) : List (List Char) :=
  (cs.splitOnP (!·.isAlphanum)).filter (!·.isEmpty)

@[simp] theorem words_nil : words [] = [] := rfl

/-- A character of no word parts the words before it from those after it. -/
theorem words_append_cons (hc : c.isAlphanum = false) (cs ds : List Char) :
    words (cs ++ c :: ds) = words cs ++ words ds := by
  rw [words, List.splitOnP_append_cons cs ds (by rw [hc, Bool.not_false]), List.filter_append,
    words, words]

theorem words_cons (hc : c.isAlphanum = false) (cs : List Char) : words (c :: cs) = words cs :=
  words_append_cons hc [] cs

theorem words_of_isWord (h : IsWord w) : words w = [w] := by
  have hsplit : w.splitOnP (!·.isAlphanum) = [w] :=
    List.splitOnP_eq_singleton fun c hc => by rw [h.isAlphanum c hc, Bool.not_true]
  rw [words, hsplit, List.filter_cons_of_pos (by simp [h.ne_nil]), List.filter_nil]

/-- A word that cannot be longer is one of the words of a text. -/
theorem words_append (h : IsWord w) (hgap : AtGap cs) : words (w ++ cs) = w :: words cs := by
  cases cs with
  | nil => rw [List.append_nil, words_of_isWord h, words_nil]
  | cons c cs =>
    have hc : c.isAlphanum = false := hgap c rfl
    rw [words_append_cons hc, words_of_isWord h, words_cons hc, List.singleton_append]

theorem isWord_of_mem_words (h : w ∈ words cs) : IsWord w := by
  induction cs using induction_on_words with
  | nil => cases h
  | gap c cs hc ih =>
    rw [words_cons hc] at h
    exact ih h
  | word first cs hfirst hgap ih =>
    rw [words_append hfirst hgap, List.mem_cons] at h
    rcases h with rfl | h
    · exact hfirst
    · exact ih h

/-! ## Writing -/

/-- Past a word the writer is in the gap behind it as soon as the word cannot be longer. -/
theorem writeFrom_word (hgap : AtGap cs) : writeFrom .word cs = writeFrom .gap cs := by
  cases cs with
  | nil => rw [writeFrom_nil, writeFrom_nil]
  | cons c cs =>
    have hc : c.isAlphanum = false := hgap c rfl
    rw [writeFrom_cons_of_not_isAlphanum hc, writeFrom_cons_of_not_isAlphanum hc, Place.skip,
      Place.skip]

/-- A word is written after what separates it from the word before. -/
theorem writeFrom_append (place : Place) (h : IsWord w) (hgap : AtGap cs) :
    writeFrom place (w ++ cs) = place.separator ++ w.map Char.toLower ++ writeFrom .gap cs := by
  obtain ⟨hne, hw⟩ := h
  induction w generalizing place with
  | nil => exact absurd rfl hne
  | cons c w ih =>
    rw [List.forall_mem_cons] at hw
    rw [List.cons_append, writeFrom_cons_of_isAlphanum hw.1, List.map_cons, List.append_assoc,
      List.cons_append]
    cases w with
    | nil => rw [List.nil_append, writeFrom_word hgap, List.map_nil, List.nil_append]
    | cons d w => rw [ih .word (List.cons_ne_nil d w) hw.2, Place.separator, List.nil_append]

/-- In a gap every word that is left costs a dash. -/
theorem writeFrom_gap (cs : List Char) :
    writeFrom .gap cs = (words cs).flatMap fun w => '-' :: w.map Char.toLower := by
  induction cs using induction_on_words with
  | nil => rfl
  | gap c cs hc ih => rw [writeFrom_cons_of_not_isAlphanum hc, Place.skip, ih, words_cons hc]
  | word w cs hw hgap ih =>
    rw [writeFrom_append .gap hw hgap, words_append hw hgap, List.flatMap_cons, ← ih]
    rfl

/-- Joined words are the first one, and then a dash before every other. -/
theorem intercalate_cons (w : List Char) (ws : List (List Char)) :
    ['-'].intercalate (w :: ws) = w ++ ws.flatMap ('-' :: ·) := by
  induction ws generalizing w with
  | nil => rw [List.intercalate_singleton, List.flatMap_nil, List.append_nil]
  | cons next ws ih =>
    rw [List.intercalate_cons_cons, ih, List.flatMap_cons, List.append_assoc]
    rfl

/-- From the front the words of a text are written joined by dashes. -/
theorem writeFrom_front (cs : List Char) :
    writeFrom .front cs = ['-'].intercalate ((words cs).map (·.map Char.toLower)) := by
  induction cs using induction_on_words with
  | nil => rfl
  | gap c cs hc ih => rw [writeFrom_cons_of_not_isAlphanum hc, Place.skip, ih, words_cons hc]
  | word w cs hw hgap _ =>
    rw [writeFrom_append .front hw hgap, words_append hw hgap, List.map_cons, intercalate_cons,
      List.flatMap_map, writeFrom_gap]
    rfl

/-! ## Lowercase words -/

theorem not_isUpper_of_isDigit (hc : c.isDigit = true) : ¬c.isUpper = true := by
  simp only [Char.isDigit, Char.isUpper, Bool.and_eq_true, decide_eq_true_eq,
    UInt32.le_iff_toNat_le] at hc ⊢
  have hnine : '9'.val.toNat < 'A'.val.toNat := by decide
  omega

/-- Lowercase letters and digits are all there is in a lowercase word. -/
theorem lower_or_digit (hc : c.isAlphanum = true) :
    c.toLower.isLower = true ∨ c.toLower.isDigit = true := by
  rw [Char.isAlphanum, Bool.or_eq_true] at hc
  rcases hc with halpha | hdigit
  · exact Or.inl ((Char.isLower_toLower_eq_isAlpha c).trans halpha)
  · rw [Char.toLower_eq_of_not_isUpper (not_isUpper_of_isDigit hdigit)]
    exact Or.inr hdigit

theorem IsWord.map_toLower (h : IsWord w) : IsWord (w.map Char.toLower) where
  ne_nil := by simpa using h.ne_nil
  isAlphanum := by
    rw [List.forall_mem_map]
    intro c hc
    rw [Char.isAlphanum, Char.isAlpha, Bool.or_eq_true, Bool.or_eq_true]
    exact (lower_or_digit (h.isAlphanum c hc)).imp_left Or.inr

/-- Words that are joined by dashes are the words of what they are joined to. -/
theorem words_intercalate (h : ∀ w ∈ ws, IsWord w) : words (['-'].intercalate ws) = ws := by
  induction ws with
  | nil => rfl
  | cons w ws ih =>
    rw [List.forall_mem_cons] at h
    cases ws with
    | nil => rw [List.intercalate_singleton, words_of_isWord h.1]
    | cons next ws =>
      rw [List.intercalate_cons_cons, List.append_assoc, List.singleton_append,
        words_append_cons rfl, words_of_isWord h.1, ih h.2, List.singleton_append]

/-- The words of a text, lowercased. -/
def spelled (text : String) : List String :=
  (words text.toList).map fun w => String.ofList (w.map Char.toLower)

theorem toList_slug (text : String) :
    (slug text).toList = ['-'].intercalate ((words text.toList).map (·.map Char.toLower)) := by
  rw [slug, String.toList_ofList, writeFrom_front]

theorem slug_eq (text : String) : slug text = "-".intercalate (spelled text) := by
  rw [← String.toList_inj, toList_slug, String.toList_intercalate, spelled, List.map_map]
  simp [Function.comp_def]

/-- A slug is spelled as the text is. -/
theorem spelled_slug (text : String) : spelled (slug text) = spelled text := by
  have hwords : ∀ w ∈ (words text.toList).map (·.map Char.toLower), IsWord w := by
    rw [List.forall_mem_map]
    exact fun w hw => (isWord_of_mem_words hw).map_toLower
  rw [spelled, toList_slug, words_intercalate hwords, List.map_map, spelled]
  refine List.map_congr_left fun w _ => congrArg String.ofList ?_
  rw [List.map_map]
  exact List.map_congr_left fun c _ => Char.toLower_toLower_eq_toLower c

/-- Parts that are joined by a dash are spelled one after the other. -/
theorem spelled_append_dash (text text' : String) :
    spelled (text ++ "-" ++ text') = spelled text ++ spelled text' := by
  have htext : (text ++ "-" ++ text').toList = text.toList ++ '-' :: text'.toList := by
    rw [String.toList_append, String.toList_append, List.append_assoc]
    rfl
  rw [spelled, htext, words_append_cons rfl, List.map_append, spelled, spelled]

/-! ## What a slug looks like -/

/-- Whether a text is made of lowercase letters, digits and dashes, with no dash at its ends and no
two dashes in a row. -/
structure Tidy (cs : List Char) : Prop where
  chars : ∀ c ∈ cs, c.isLower = true ∨ c.isDigit = true ∨ c = '-'
  head : cs.head? ≠ some '-'
  last : cs.getLast? ≠ some '-'
  apart : cs.IsChain fun c d => c ≠ '-' ∨ d ≠ '-'

theorem tidy_nil : Tidy [] := ⟨nofun, nofun, nofun, .nil⟩

theorem tidy_word (h : ∀ c ∈ w, c.isLower = true ∨ c.isDigit = true) : Tidy w := by
  have hdash : ∀ c ∈ w, c ≠ '-' := by
    rintro c hc rfl
    exact absurd (h '-' hc) (by decide)
  refine ⟨fun c hc => (h c hc).imp_right Or.inl, fun hhead => ?_, fun hlast => ?_, ?_⟩
  · exact hdash '-' (List.mem_of_head? hhead) rfl
  · exact hdash '-' (List.mem_of_getLast? hlast) rfl
  · refine (List.pairwise_of_forall_mem_list fun c hc d _ => ?_).isChain
    exact Or.inl (hdash c hc)

/-- Tidy texts are joined by a dash to a tidy text, unless one is empty. -/
theorem Tidy.append_dash (h : Tidy cs) (h' : Tidy ds) (hne : cs ≠ []) (hne' : ds ≠ []) :
    Tidy (cs ++ '-' :: ds) where
  chars := by
    rw [List.forall_mem_append, List.forall_mem_cons]
    exact ⟨h.chars, Or.inr (Or.inr rfl), h'.chars⟩
  head := by
    rw [List.head?_append_of_ne_nil _ hne]
    exact h.head
  last := by
    rw [List.getLast?_append_cons, List.getLast?_cons_of_ne_nil hne']
    exact h'.last
  apart := by
    rw [List.isChain_append, List.isChain_cons]
    refine ⟨h.apart, ⟨fun d hd => Or.inr ?_, h'.apart⟩, fun c hc _ _ => Or.inl ?_⟩
    · rintro rfl
      exact h'.head hd
    · rintro rfl
      exact h.last hc

theorem tidy_intercalate
    (h : ∀ w ∈ ws, w ≠ [] ∧ ∀ c ∈ w, c.isLower = true ∨ c.isDigit = true) :
    Tidy (['-'].intercalate ws) := by
  induction ws with
  | nil => exact tidy_nil
  | cons w ws ih =>
    rw [List.forall_mem_cons] at h
    cases ws with
    | nil =>
      rw [List.intercalate_singleton]
      exact tidy_word h.1.2
    | cons next ws =>
      have hne : ['-'].intercalate (next :: ws) ≠ [] := by
        rw [intercalate_cons]
        exact List.append_ne_nil_of_left_ne_nil (h.2 next List.mem_cons_self).1 _
      rw [List.intercalate_cons_cons, List.append_assoc, List.singleton_append]
      exact (tidy_word h.1.2).append_dash (ih h.2) h.1.1 hne

theorem tidy_slug (text : String) : Tidy (slug text).toList := by
  rw [toList_slug]
  refine tidy_intercalate ?_
  rw [List.forall_mem_map]
  intro w hw
  have hword := isWord_of_mem_words hw
  refine ⟨hword.map_toLower.ne_nil, ?_⟩
  rw [List.forall_mem_map]
  exact fun c hc => lower_or_digit (hword.isAlphanum c hc)

/-! ## Slugs of several parts -/

theorem slug_eq_empty_iff {text : String} : slug text = "" ↔ spelled text = [] := by
  constructor
  · intro h
    rw [← spelled_slug, h]
    rfl
  · intro h
    rw [slug_eq, h, String.intercalate_nil]

/-- All parts have empty slugs if there is no word in any of them. -/
theorem filter_slugs_eq_nil_iff {parts : List String} :
    (parts.map slug).filter (· ≠ "") = [] ↔ parts.flatMap spelled = [] := by
  rw [List.filter_eq_nil_iff, List.forall_mem_map, List.flatMap_eq_nil_iff]
  simp only [ne_eq, decide_not, Bool.not_eq_true', decide_eq_false_iff_not, not_not,
    slug_eq_empty_iff]

/-- The slugs of some parts that are not empty, joined by dashes, spell the parts one after the
other. -/
theorem intercalate_slugs (parts : List String) :
    "-".intercalate ((parts.map slug).filter (· ≠ "")) =
      "-".intercalate (parts.flatMap spelled) := by
  induction parts with
  | nil => rfl
  | cons part parts ih =>
    rw [List.map_cons, List.flatMap_cons]
    by_cases hpart : slug part = ""
    · rw [List.filter_cons_of_neg (by simp [hpart]), ih, slug_eq_empty_iff.mp hpart,
        List.nil_append]
    · have hspelled : spelled part ≠ [] := fun h => hpart (slug_eq_empty_iff.mpr h)
      rw [List.filter_cons_of_pos (by simp [hpart])]
      by_cases hparts : parts.flatMap spelled = []
      · rw [filter_slugs_eq_nil_iff.mpr hparts, hparts, List.append_nil,
          String.intercalate_singleton, slug_eq]
      · have hfilter : (parts.map slug).filter (· ≠ "") ≠ [] :=
          fun h => hparts (filter_slugs_eq_nil_iff.mp h)
        rw [String.intercalate_cons_of_ne_nil hfilter, ih,
          String.intercalate_append_of_ne_nil hspelled hparts, slug_eq]

theorem guardName_eq (category name : String) :
    guardName category name = "-".intercalate (spelled category ++ spelled name) := by
  rw [guardName, slug_eq, spelled_append_dash]

theorem attributeGuardName_eq (category name key entry : String) :
    attributeGuardName category name key entry =
      "-".intercalate (spelled category ++ spelled name ++ spelled key ++ spelled entry) := by
  rw [attributeGuardName, slug_eq, spelled_append_dash, spelled_append_dash, spelled_append_dash]

/-- **Guard names are canonical.**  A slug is the words of its text, lowercased and joined by single
dashes, and it is its own slug.  A guard name is made of the slugs of its parts in the same way, an
empty one left out, and is the same for a part and its slug. -/
theorem names_canonical :
    (∀ text, slug text =
        "-".intercalate ((words text.toList).map fun w => String.ofList (w.map Char.toLower))) ∧
    (∀ text, Tidy (slug text).toList) ∧
    (∀ text, slug (slug text) = slug text) ∧
    (∀ category name, guardName category name =
        "-".intercalate ([slug category, slug name].filter (· ≠ ""))) ∧
    (∀ category name key entry, attributeGuardName category name key entry =
        "-".intercalate ([guardName category name, slug key, slug entry].filter (· ≠ ""))) ∧
    (∀ category name, guardName (slug category) name = guardName category name ∧
        guardName category (slug name) = guardName category name) ∧
    (∀ category name key entry,
        attributeGuardName (slug category) name key entry =
          attributeGuardName category name key entry ∧
        attributeGuardName category (slug name) key entry =
          attributeGuardName category name key entry ∧
        attributeGuardName category name (slug key) entry =
          attributeGuardName category name key entry ∧
        attributeGuardName category name key (slug entry) =
          attributeGuardName category name key entry) := by
  refine ⟨slug_eq, tidy_slug, fun text => ?_, fun category name => ?_,
    fun category name key entry => ?_, fun category name => ?_, fun category name key entry => ?_⟩
  · rw [slug_eq (slug text), spelled_slug, slug_eq]
  · have hjoin := intercalate_slugs [category, name]
    rw [List.flatMap_cons, List.flatMap_singleton] at hjoin
    rw [guardName_eq, ← hjoin]
    rfl
  · have hjoin := intercalate_slugs [category ++ "-" ++ name, key, entry]
    rw [List.flatMap_cons, List.flatMap_cons, List.flatMap_singleton, spelled_append_dash,
      ← List.append_assoc] at hjoin
    rw [attributeGuardName_eq, ← hjoin]
    rfl
  · simp only [guardName_eq, spelled_slug, and_self]
  · simp only [attributeGuardName_eq, spelled_slug, and_self]

end Slug

end GradedAccess
